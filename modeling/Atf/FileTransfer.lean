import Atf.FileWindow

/-!
# The transfer of a file

Client and server share no state but the offset in their messages. A request with an offset inside the file
is answered with the chunk there and the offset behind it, or 0 if the chunk is the last
(`fileContent_chunk`); so before each request the client has written, or is about to write, exactly the
content up to the offset it asks for. The offset grows by a whole chunk, so it never is 0 before the end,
and an empty file or one of a multiple of the chunk size ends like any other. A negative response ends the
loop wherever it comes (`fileLoop_negative`).

The temporary file of an earlier call is removed first, and that may fail; what is left of it stays in front of the
content (`Connection.kept`).
-/

namespace Atf
open Lua

/-! ### Numbers in parameters -/

theorem digits_toString (n : Nat) : digits (toString n).toList = some n := by
  have hds : (toString n).toList = Nat.toDigits 10 n := by simp
  have hne : Nat.toDigits 10 n ≠ [] := Nat.toDigits_ne_nil
  have hall : (Nat.toDigits 10 n).all Char.isDigit = true := by
    rw [List.all_eq_true]
    intro c hc
    exact Nat.isDigit_of_mem_toDigits (by decide) (by decide) hc
  rw [hds]
  simp [digits, hne, hall, Nat.ofDigitChars_ten_toDigits]

theorem lexicalCast_toString (n : Nat) : lexicalCast (toString n) = some (n : Int) := by
  have hd := digits_toString n
  unfold lexicalCast
  split
  · rename_i ds heq
    rw [heq] at hd
    simp [digits, Char.isDigit] at hd
  · rename_i ds heq
    rw [heq] at hd
    simp [digits, Char.isDigit] at hd
  · rw [hd]
    rfl

theorem getLong_offsetParameter {n : Nat} (h : n < 2 ^ 63) : getLong (offsetParameter n) = some (n : Int) := by
  have hs : toString (n : Int) = toString n := rfl
  have hrange : -2 ^ 63 ≤ (n : Int) ∧ (n : Int) < 2 ^ 63 := by omega
  rw [getLong, offsetParameter, hs, lexicalCast_toString, Option.bind_some, if_pos rfl, if_pos hrange]

theorem getSize_toString {n : Nat} (h : n < 2 ^ 64) : getSize (toString n, .INT) = some n := by
  simp only [getSize, lexicalCast_toString, Option.bind_some, if_true]
  rw [if_pos (by simpa using h)]
  congr 1
  omega

/-! ### One request -/

section Server
variable {host : ServerHost} {file_path file_name : String} {content : Bytes}
  (hmalloc : ∀ n, n ≤ kMaxSizeData → host.malloc n = true)
  (hfile : host.file (joinPath file_path file_name) = some content) (hlen : content.length < 2 ^ 31)
include hmalloc hfile hlen

theorem getFileContent_chunk {offset : Nat} (h : offset ≤ content.length) :
    host.getFileContent file_path file_name offset kMaxSizeData =
      ((content.drop offset).take kMaxSizeData,
        if offset + kMaxSizeData < content.length then ((offset + kMaxSizeData : Nat) : Int) else 0) := by
  have hmax : kMaxSizeData = 1048576 := rfl
  have hwindow : window content offset kMaxSizeData = (content.drop offset).take kMaxSizeData := if_neg (by decide)
  have hlength : (window content offset kMaxSizeData).length = min kMaxSizeData (content.length - offset) :=
    length_window.trans (if_neg (by decide))
  obtain ⟨hdata, hnext⟩ := ServerHost.getFileContent_of_le (m := kMaxSizeData) hfile (by omega)
    (hmalloc _ (by omega)) h
  refine Prod.ext (hdata.trans hwindow) ?_
  rw [hnext, hdata, hlength]
  dsimp only
  split <;> split <;> omega

/-- The parameters of a request for the file at this offset. -/
def requestAt (file_path file_name : String) (offset : Nat) : List Parameter :=
  [(file_path, .STRING), (file_name, .STRING), offsetParameter offset, (toString kMaxSizeData, .INT)]

/-- A request is answered with the chunk at its offset, and the offset behind it or 0 at the end. -/
theorem fileContent_chunk {offset : Nat} (h : offset ≤ content.length) :
    host.fileContent (requestAt file_path file_name offset) =
      ((content.drop offset).take kMaxSizeData,
        if offset + kMaxSizeData < content.length then ((offset + kMaxSizeData : Nat) : Int) else 0) := by
  have hint : ∀ n : Nat, n < 2 ^ 31 → toInt n = n := fun n hn => Int.bmod_eq_of_le (by omega) (by omega)
  simp only [ServerHost.fileContent, requestAt, getString, if_true,
    getLong_offsetParameter (by omega : offset < 2 ^ 63),
    getSize_toString (by decide : kMaxSizeData < 2 ^ 64), getFileContent_chunk hmalloc hfile hlen h]
  split
  · rw [hint _ (by omega)]
  · rfl

end Server

/-! ### The temporary file -/

namespace Connection
variable (connection : Connection) (files : Table String Bytes) (path : String)

/-- What `file_call` leaves in the temporary file of an earlier call: nothing, if it can be removed. -/
def kept : Bytes := if connection.removable path then [] else (files path).getD []

theorem getD_remove : (connection.remove files path path).getD [] = connection.kept files path := by
  unfold remove kept
  split
  · rw [Table.erase_self, Option.getD_none]
  · rfl

theorem remove_set (content : Bytes) : (connection.remove files path).set path content = files.set path content := by
  unfold remove
  split
  · funext k
    simp only [Table.set_apply, Table.erase_apply]
    split <;> rfl
  · rfl

theorem remove_eq_none_iff : connection.remove files path path = none ↔
    connection.removable path = true ∨ files path = none := by
  unfold remove
  split
  · rename_i h
    exact iff_of_true (Table.erase_self ..) (.inl h)
  · rename_i h
    exact (or_iff_right h).symm

end Connection

/-! ### The loop -/

section Transfer
variable {connection : Connection} {rpc_name : String}

/-- Setting the offset again replaces the one set before. -/
theorem fileLoop_set (parameters : List Parameter) (p : Parameter) (fuel n : Nat) (response : Response)
    (written : Bytes) :
    connection.fileLoop rpc_name (parameters.set (parameters.length - 2) p) fuel n response written =
      connection.fileLoop rpc_name parameters fuel n response written := by
  cases fuel with
  | zero => rfl
  | succ fuel => simp only [Connection.fileLoop, List.length_set, List.set_set]

/-- One round, with the response it gets. -/
theorem fileLoop_succ {parameters : List Parameter} {fuel n : Nat} {response next : Response} {written : Bytes}
    (h : connection.call n rpc_name
      (parameters.set (parameters.length - 2) (offsetParameter response.2)) = next) :
    connection.fileLoop rpc_name parameters (fuel + 1) n response written =
      if 0 > next.2 then some (none, written ++ response.1)
      else if next.2 > 0 then
        connection.fileLoop rpc_name parameters fuel (n + 1) next (written ++ response.1)
      else some (some next, written ++ response.1) := by
  subst h
  rw [Connection.fileLoop]
  simp only [fileLoop_set]

variable {file_path file_name : String} {content : Bytes}
  (hcall : ∀ n offset, offset ≤ content.length →
    connection.call n rpc_name (requestAt file_path file_name offset) =
      ((content.drop offset).take kMaxSizeData,
        if offset + kMaxSizeData < content.length then ((offset + kMaxSizeData : Nat) : Int) else 0))
include hcall

/-- The loop, entered with a response that completes the content up to `offset`, ends with the rest of it. -/
theorem fileLoop_content {fuel n offset : Nat} {response : Response} {written : Bytes}
    (hpos : 0 < offset) (hlt : offset < content.length) (hcode : response.2 = offset)
    (hdata : written ++ response.1 = content.take offset) (hfuel : content.length - offset ≤ fuel) :
    ∃ r w, connection.fileLoop rpc_name (firstParameters [(file_path, .STRING), (file_name, .STRING)]) fuel n
        response written = some (some r, w) ∧
      w ++ r.1 = content := by
  induction fuel generalizing n offset response written with
  | zero => omega
  | succ fuel ih =>
    have hnext := hcall n offset (by omega)
    have htake : (written ++ response.1) ++ (content.drop offset).take kMaxSizeData =
        content.take (offset + kMaxSizeData) := by
      rw [hdata]
      exact List.take_add.symm
    rw [requestAt, ← hcode] at hnext
    rw [fileLoop_succ hnext]
    by_cases hmore : offset + kMaxSizeData < content.length
    · have hkMax : 0 < kMaxSizeData := by decide
      simp only [if_pos hmore]
      rw [if_neg (by omega), if_pos (by omega)]
      refine ih (by omega) hmore ?_ htake (by omega)
      rfl
    · simp only [if_neg hmore, gt_iff_lt, Int.lt_irrefl, if_false]
      refine ⟨_, _, rfl, ?_⟩
      rw [htake]
      exact List.take_of_length_le (by omega)

/-- The whole call, when the first response is the first chunk. -/
theorem fileCall_content (hconn : connection.connected = true) (files : Table String Bytes) {fuel : Nat}
    (hfuel : content.length ≤ fuel) :
    connection.fileCall fuel files rpc_name [(file_path, .STRING), (file_name, .STRING)] =
      if connection.creatable (kTmpPath ++ file_name) then
        some ((text (kTmpPath ++ file_name), error_codes.SUCCESS),
          files.set (kTmpPath ++ file_name) (connection.kept files (kTmpPath ++ file_name) ++ content))
      else some ((text "Can't create file", error_codes.FAILED), connection.remove files (kTmpPath ++ file_name)) := by
  have hfirst := hcall 0 0 (Nat.zero_le _)
  simp only [Connection.fileCall, hconn, Bool.not_true, Bool.false_eq_true, if_false]
  rw [show tmpPath [(file_path, .STRING), (file_name, .STRING)] = kTmpPath ++ file_name from rfl,
    show firstParameters [(file_path, .STRING), (file_name, .STRING)] = requestAt file_path file_name 0 from rfl,
    hfirst, Connection.getD_remove]
  simp only [Nat.zero_add, List.drop_zero, Connection.remove_set]
  have hnonneg : ¬ (0 : Int) > if kMaxSizeData < content.length then (kMaxSizeData : Int) else 0 := by
    split <;> omega
  rw [if_neg hnonneg]
  cases hcreate : connection.creatable (kTmpPath ++ file_name) with
  | false => rfl
  | true =>
    simp only [Bool.not_true, Bool.false_eq_true, if_false, if_true]
    by_cases hmore : kMaxSizeData < content.length
    · simp only [if_pos hmore]
      rw [if_pos (by decide : (0 : Int) < (kMaxSizeData : Int))]
      let first : Response := (content.take kMaxSizeData, (kMaxSizeData : Int))
      have hcode : first.2 = (kMaxSizeData : Nat) := rfl
      have hdata : [] ++ first.1 = content.take kMaxSizeData := rfl
      obtain ⟨r, w, hloop, hw⟩ := fileLoop_content hcall (n := 1) (by decide) hmore hcode hdata
        (by omega : content.length - kMaxSizeData ≤ fuel)
      rw [show requestAt file_path file_name 0 =
        firstParameters [(file_path, .STRING), (file_name, .STRING)] from rfl, hloop]
      simp only [List.append_assoc, hw]
    · simp only [if_neg hmore, Int.lt_irrefl, if_false]
      rw [List.take_of_length_le (by omega)]

end Transfer

/-! ### A negative response -/

section Negative
variable (connection : Connection) (rpc_name : String) (parameters : List Parameter)

/-- The response to the `i`-th request, when the client has asked for the offset of each response before it. -/
def Connection.responseAt : Nat → Response
  | 0 => connection.call 0 rpc_name (firstParameters parameters)
  | i + 1 => connection.call (i + 1) rpc_name ((firstParameters parameters).set
      ((firstParameters parameters).length - 2) (offsetParameter (responseAt i).2))

variable {connection rpc_name parameters}

theorem fileLoop_negative {i k fuel : Nat} {written : Bytes}
    (hpos : ∀ j < i + k + 1, 0 < (connection.responseAt rpc_name parameters j).2)
    (hneg : (connection.responseAt rpc_name parameters (i + k + 1)).2 < 0) (hfuel : k < fuel) :
    ∃ w, connection.fileLoop rpc_name (firstParameters parameters) fuel (i + 1)
      (connection.responseAt rpc_name parameters i) written = some (none, w) := by
  induction k generalizing i fuel written with
  | zero =>
    obtain ⟨fuel, rfl⟩ : ∃ f, fuel = f + 1 := ⟨fuel - 1, by omega⟩
    have hcall : connection.call (i + 1) rpc_name _ = connection.responseAt rpc_name parameters (i + 1) := rfl
    rw [fileLoop_succ hcall, if_pos hneg]
    exact ⟨_, rfl⟩
  | succ k ih =>
    obtain ⟨fuel, rfl⟩ : ∃ f, fuel = f + 1 := ⟨fuel - 1, by omega⟩
    have hnext := hpos (i + 1) (by omega)
    have hcall : connection.call (i + 1) rpc_name _ = connection.responseAt rpc_name parameters (i + 1) := rfl
    rw [fileLoop_succ hcall, if_neg (by omega), if_pos hnext]
    refine ih ?_ ?_ (by omega)
    · intro j hj
      exact hpos j (by omega)
    · rw [show i + 1 + k + 1 = i + (k + 1) + 1 by omega]
      exact hneg

/-- Once the first chunk was there, no file is left if it can be removed, or if there never was one. -/
theorem fileCall_negative (hconn : connection.connected = true) (files : Table String Bytes) {i fuel : Nat}
    (hpos : ∀ j < i, 0 < (connection.responseAt rpc_name parameters j).2)
    (hneg : (connection.responseAt rpc_name parameters i).2 < 0) (hfuel : i ≤ fuel) :
    ∃ response files', connection.fileCall fuel files rpc_name parameters = some (response, files') ∧
      response.2 < 0 ∧ (0 < i → (files' (tmpPath parameters) = none ↔
        connection.removable (tmpPath parameters) = true ∨
          connection.creatable (tmpPath parameters) = false ∧ files (tmpPath parameters) = none)) := by
  unfold Connection.fileCall
  simp only [hconn, Bool.not_true, Bool.false_eq_true, if_false]
  rw [show connection.call 0 rpc_name (firstParameters parameters) =
    connection.responseAt rpc_name parameters 0 from rfl]
  cases i with
  | zero =>
    rw [if_pos hneg]
    exact ⟨_, _, rfl, hneg, fun h => absurd h (Nat.lt_irrefl 0)⟩
  | succ k =>
    have h0 := hpos 0 (by omega)
    rw [if_neg (by omega)]
    cases connection.creatable (tmpPath parameters) with
    | false =>
      refine ⟨_, _, rfl, by decide, fun _ => ?_⟩
      rw [Connection.remove_eq_none_iff, eq_self_iff_true, true_and]
    | true =>
      obtain ⟨w, hloop⟩ : ∃ w, connection.fileLoop rpc_name (firstParameters parameters) fuel (0 + 1)
          (connection.responseAt rpc_name parameters 0) [] = some (none, w) :=
        fileLoop_negative (k := k) (by simpa using hpos) (by simpa using hneg) (by omega)
      simp only [Nat.zero_add] at hloop
      simp only [Bool.not_true, Bool.false_eq_true, if_false, if_pos h0, hloop]
      refine ⟨_, _, rfl, by decide, fun _ => ?_⟩
      rw [Connection.remove_eq_none_iff, Table.set_self]
      simp

end Negative

/-! ### The transfer -/

/-- A live connection to the server, which answers every request on its own. -/
def ServerHost.connection (host : ServerHost) (creatable removable : String → Bool) : Connection :=
  ⟨true, fun _ _ parameters => host.fileContent parameters, creatable, removable⟩

/-- The call returns, with the content in the file if it could be created, behind what could not be removed; and on
any connection a negative response ends it with a negative code and, once the first chunk was there, without a file
if it could be removed. -/
theorem file_call_transfers {host : ServerHost} {file_path file_name : String} {content : Bytes}
    (hmalloc : ∀ n, n ≤ kMaxSizeData → host.malloc n = true)
    (hfile : host.file (joinPath file_path file_name) = some content) (hlen : content.length < 2 ^ 31)
    (creatable removable : String → Bool) (files : Table String Bytes) :
    (∀ fuel, content.length ≤ fuel →
      (host.connection creatable removable).fileCall fuel files "file_content"
          [(file_path, .STRING), (file_name, .STRING)] =
        if creatable (kTmpPath ++ file_name) then
          some ((text (kTmpPath ++ file_name), error_codes.SUCCESS), files.set (kTmpPath ++ file_name)
            ((if removable (kTmpPath ++ file_name) then [] else (files (kTmpPath ++ file_name)).getD []) ++ content))
        else some ((text "Can't create file", error_codes.FAILED),
          if removable (kTmpPath ++ file_name) then files.erase (kTmpPath ++ file_name) else files)) ∧
      ∀ (connection : Connection) (rpc_name : String) (parameters : List Parameter) (i : Nat),
        connection.connected = true →
        (∀ j < i, 0 < (connection.responseAt rpc_name parameters j).2) →
        (connection.responseAt rpc_name parameters i).2 < 0 →
        ∀ fuel, i ≤ fuel → ∃ response files',
          connection.fileCall fuel files rpc_name parameters = some (response, files') ∧
            response.2 < 0 ∧ (0 < i → (files' (tmpPath parameters) = none ↔
              connection.removable (tmpPath parameters) = true ∨
                connection.creatable (tmpPath parameters) = false ∧ files (tmpPath parameters) = none)) := by
  constructor
  · intro fuel hfuel
    refine fileCall_content (fun _ _ hoff => ?_) rfl files hfuel
    exact fileContent_chunk hmalloc hfile hlen hoff
  · intro connection rpc_name parameters i hconn hpos hneg fuel hfuel
    exact fileCall_negative hconn files hpos hneg hfuel

/-- An empty file, and a file of two chunks, which ends at a chunk boundary, over one that cannot be removed. -/
theorem file_call_transfers_sample :
    ((⟨fun _ => some [], fun _ => true, 0⟩ : ServerHost).connection (fun _ => true) fun _ => true).fileCall 0
        Table.empty "file_content" [("/var", .STRING), ("empty.log", .STRING)] =
      some ((text "/tmp/empty.log", 0), Table.empty.set "/tmp/empty.log" []) ∧
    ((⟨fun _ => some (List.replicate 2097152 1), fun _ => true, 0⟩ : ServerHost).connection (fun _ => true)
        fun _ => false).fileCall 2097152 (Table.empty.set "/tmp/two.log" [7]) "file_content"
        [("/var", .STRING), ("two.log", .STRING)] =
      some ((text "/tmp/two.log", 0),
        (Table.empty.set "/tmp/two.log" [7]).set "/tmp/two.log" (7 :: List.replicate 2097152 1)) := by
  have hempty := (@file_call_transfers ⟨fun _ => some [], fun _ => true, 0⟩ "/var" "empty.log" []
    (fun _ _ => rfl) rfl (by decide) (fun _ => true) (fun _ => true) Table.empty).1 0 (Nat.le_refl 0)
  have htwo := (@file_call_transfers ⟨fun _ => some (List.replicate 2097152 1), fun _ => true, 0⟩ "/var" "two.log"
    (List.replicate 2097152 1) (fun _ _ => rfl) rfl (by rw [List.length_replicate]; decide) (fun _ => true)
    (fun _ => false) (Table.empty.set "/tmp/two.log" [7])).1 2097152 (Nat.le_of_eq (List.length_replicate ..))
  refine ⟨hempty, htwo.trans ?_⟩
  rw [show kTmpPath ++ "two.log" = "/tmp/two.log" by decide +kernel, Table.set_self]
  rfl

end Atf
