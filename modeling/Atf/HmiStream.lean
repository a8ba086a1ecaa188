import Atf.Lib.Lua

/-!
# The stream to the HMI over TCP (`hmi_stream_adapter_controller.lua`)

The first chunk that comes from the socket is taken to hold the whole HTTP header: what follows its end is the first
data. Where the network cuts the stream earlier, `find` returns `nil` and the handler raises; where the header ends in
a line break of its own, the end is found two bytes too early.
-/

namespace Atf
open Lua

/-- `Stream.TcpConnection`; a call of the callback has the content of the file that was written for it. Opening
`tcp_stream.out` and writing it are taken to succeed. -/
structure TcpConnection where
  callbackBytes : Int
  receivedBytes : Nat
  data : List Bytes
  calls : List (Bool × Int × Bytes)
deriving DecidableEq, Repr

namespace TcpConnection

def new (bytes : Int) : TcpConnection := ⟨bytes, 0, [], []⟩

/-- `"\r\n\r\n"` -/
def headerDelimeter : Bytes := [13, 10, 13, 10]

/-- `table.concat(res.data)`, as it is written to the file. -/
def streamedData (self : TcpConnection) : Bytes := self.data.flatten

/-- The chunk behind the HTTP header, if it is the first. -/
def trim (self : TcpConnection) (data : Bytes) : LuaM Bytes :=
  if self.data.length = 0 then
    match findWord headerDelimeter data with
    | some i => .ok (subFrom data (i + 1 + headerDelimeter.length))
    | none => .error "attempt to perform arithmetic on a nil value"
  else .ok data

def processInputData (self : TcpConnection) (data : Bytes) : LuaM TcpConnection := do
  let data ← self.trim data
  let self := { self with data := self.data ++ [data], receivedBytes := self.receivedBytes + data.length }
  if self.callbackBytes ≠ -1 ∧ (self.receivedBytes : Int) ≥ self.callbackBytes then
    return { self with calls := self.calls ++ [(true, self.callbackBytes, self.streamedData)], callbackBytes := -1 }
  else return self

def disconnected (self : TcpConnection) : TcpConnection :=
  if (self.receivedBytes : Int) < self.callbackBytes then
    { self with calls := self.calls ++ [(false, (self.receivedBytes : Int), self.streamedData)] }
  else self

/-- The chunks of a stream, one after the other. -/
def processAll (self : TcpConnection) (chunks : List Bytes) : LuaM TcpConnection :=
  chunks.foldlM (fun self data => self.processInputData data) self

/-! ### The end of the header -/

section Header
variable {H rest : Bytes}

/-- Two delimiters can only overlap in one line break. -/
theorem not_prefix_of_lt (hH : ¬ headerDelimeter <:+: H) (hend : ¬ [13, 10] <:+ H) {j : Nat} (hj : j < H.length) :
    ¬ headerDelimeter <+: (H ++ headerDelimeter ++ rest).drop j := by
  intro hprefix
  have hdrop : (H ++ headerDelimeter ++ rest).drop j = H.drop j ++ (headerDelimeter ++ rest) := by
    rw [List.append_assoc, List.drop_append_of_le_length hj.le]
  rw [hdrop] at hprefix
  have hsuffix : H.drop j <:+ H := List.drop_suffix j H
  rcases hh : H.drop j with _ | ⟨a, _ | ⟨b, _ | ⟨c, _ | ⟨d, h⟩⟩⟩⟩
  · have hlength := congrArg List.length hh
    rw [List.length_drop, List.length_nil] at hlength
    omega
  · rw [hh] at hprefix
    simp [headerDelimeter] at hprefix
  · rw [hh] at hprefix hsuffix
    simp only [headerDelimeter, List.cons_append, List.nil_append, List.cons_prefix_cons] at hprefix
    obtain ⟨rfl, rfl, -⟩ := hprefix
    exact hend hsuffix
  · rw [hh] at hprefix
    simp [headerDelimeter] at hprefix
  · rw [hh] at hprefix hsuffix
    simp only [headerDelimeter, List.cons_append, List.cons_prefix_cons] at hprefix
    obtain ⟨rfl, rfl, rfl, rfl, -⟩ := hprefix
    exact hH ((List.prefix_append headerDelimeter h).isInfix.trans hsuffix.isInfix)

/-- The delimiter is found behind the header exactly if the chunk reaches behind it and the header does not end in a
line break. -/
theorem findWord_eq_length_iff {B chunk more : Bytes} (hH : ¬ headerDelimeter <:+: H)
    (hstream : chunk ++ more = H ++ headerDelimeter ++ B) :
    findWord headerDelimeter chunk = some H.length ↔
      H.length + headerDelimeter.length ≤ chunk.length ∧ ¬ [13, 10] <:+ H := by
  rw [findWord_eq_some_iff]
  constructor
  · rintro ⟨hle, hprefix, hfirst⟩
    have hlength := hprefix.length_le
    rw [List.length_drop] at hlength
    refine ⟨by omega, ?_⟩
    rintro ⟨X, rfl⟩
    -- the line break at the end of the header and half of the delimiter
    refine hfirst X.length (by simp) ?_
    have hdrop : chunk.drop X.length ++ more = headerDelimeter ++ ([13, 10] ++ B) := by
      rw [List.length_append] at hle
      rw [← List.drop_append_of_le_length (by omega), hstream, List.append_assoc, List.append_assoc, List.drop_left]
      rfl
    refine List.prefix_of_prefix_length_le (hdrop ▸ List.prefix_append _ _) (List.prefix_append _ more) ?_
    rw [List.length_drop]
    simp only [List.length_append, List.length_cons, List.length_nil, headerDelimeter] at hlength ⊢
    omega
  · rintro ⟨hlength, hend⟩
    obtain ⟨rest, rfl⟩ : H ++ headerDelimeter <+: chunk := by
      refine List.prefix_of_prefix_length_le (hstream ▸ List.prefix_append _ B) (List.prefix_append _ more) ?_
      rwa [List.length_append]
    refine ⟨by omega, ?_, fun j hj => not_prefix_of_lt hH hend hj⟩
    rw [List.append_assoc, List.drop_left]
    exact List.prefix_append _ _

end Header

/-! ### The chunks -/

/-- What the callback was told of the `n` bytes it waits for. -/
inductive Reported (n : Nat) (c : TcpConnection) : Prop
  | waiting : c.callbackBytes = n → c.calls = [] → c.receivedBytes < n → Reported n c
  | called {content : Bytes} : c.callbackBytes = -1 → c.calls = [(true, (n : Int), content)] →
      n ≤ c.receivedBytes → Reported n c

/-- The bytes that were received, and what the callback was told of them. -/
structure Received (n : Nat) (bytes : Bytes) (c : TcpConnection) : Prop where
  data : c.streamedData = bytes
  receivedBytes : c.receivedBytes = bytes.length
  reported : Reported n c

namespace Received
variable {n : Nat} {c : TcpConnection} {bytes : Bytes}

theorem new (hn : 0 < n) : Received n [] (.new n) := ⟨rfl, rfl, .waiting rfl rfl hn⟩

/-- A chunk that can be trimmed is received. -/
theorem step {chunk data : Bytes} (h : Received n bytes c) (htrim : c.trim chunk = .ok data) :
    ∃ c', c.processInputData chunk = .ok c' ∧ c'.data ≠ [] ∧ Received n (bytes ++ data) c' := by
  have hdata : (c.data ++ [data]).flatten = bytes ++ data := by
    rw [List.flatten_append, List.flatten_singleton]
    exact congrArg (· ++ data) h.data
  have hreceived : c.receivedBytes + data.length = (bytes ++ data).length := by
    rw [h.receivedBytes, List.length_append]
  simp only [processInputData, htrim, bind, Except.bind]
  rcases h.reported with ⟨hbytes, hcalls, -⟩ | ⟨hbytes, hcalls, hle⟩
  · by_cases hall : n ≤ c.receivedBytes + data.length
    · rw [if_pos ⟨by omega, by omega⟩]
      have hcall : c.calls ++ [(true, c.callbackBytes, (c.data ++ [data]).flatten)] =
          [(true, (n : Int), (c.data ++ [data]).flatten)] := by
        rw [hcalls, hbytes, List.nil_append]
      exact ⟨_, rfl, by simp, hdata, hreceived, .called rfl hcall hall⟩
    · rw [if_neg (by omega)]
      exact ⟨_, rfl, by simp, hdata, hreceived, .waiting hbytes hcalls (by simpa using hall)⟩
  · rw [if_neg (by simp [hbytes])]
    exact ⟨_, rfl, by simp, hdata, hreceived, .called hbytes hcalls (Nat.le_add_right_of_le hle)⟩

/-- Behind the first chunk everything is received. -/
theorem rest (h : Received n bytes c) (hc : c.data ≠ []) (chunks : List Bytes) :
    ∃ c', c.processAll chunks = .ok c' ∧ Received n (bytes ++ chunks.flatten) c' := by
  induction chunks generalizing c bytes with
  | nil => exact ⟨c, rfl, by rwa [List.flatten_nil, List.append_nil]⟩
  | cons chunk chunks ih =>
    have htrim : c.trim chunk = .ok chunk := if_neg (mt List.length_eq_zero_iff.mp hc)
    obtain ⟨c₁, hprocess, hc₁, h₁⟩ := h.step htrim
    obtain ⟨c', hall, h'⟩ := ih h₁ hc₁
    refine ⟨c', ?_, ?_⟩
    · rw [processAll, List.foldlM_cons, hprocess]
      exact hall
    · rwa [List.flatten_cons, ← List.append_assoc]

end Received

/-- The body of the stream is recorded and the callback called once, with success, and no more when the stream ends. -/
def Delivers (n : Nat) (B : Bytes) (result : LuaM TcpConnection) : Prop :=
  ∃ c content, result = .ok c ∧ c.streamedData = B ∧ c.calls = [(true, (n : Int), content)] ∧ c.disconnected = c

theorem processAll_of_none {chunk : Bytes} (chunks : List Bytes) {n : Nat}
    (hfind : findWord headerDelimeter chunk = none) :
    (new n).processAll (chunk :: chunks) = .error "attempt to perform arithmetic on a nil value" := by
  have htrim : (new n).trim chunk = .error "attempt to perform arithmetic on a nil value" := by
    simp only [trim, new, List.length_nil, if_true, hfind]
  rw [processAll, List.foldlM_cons, processInputData, htrim]
  rfl

/-- What is recorded is the stream behind the delimiter that was found. -/
theorem processAll_of_some {chunk : Bytes} (chunks : List Bytes) {n i : Nat} (hn : 0 < n)
    (hfind : findWord headerDelimeter chunk = some i) : ∃ c, (new n).processAll (chunk :: chunks) = .ok c ∧
      Received n ((chunk ++ chunks.flatten).drop (i + headerDelimeter.length)) c := by
  have htrim : (new n).trim chunk = .ok (chunk.drop (i + headerDelimeter.length)) := by
    simp only [trim, new, List.length_nil, if_true, hfind, subFrom]
    congr 2
  obtain ⟨c₁, hprocess, hc₁, h₁⟩ := (Received.new hn).step htrim
  obtain ⟨c, hrest, h⟩ := h₁.rest hc₁ chunks
  obtain ⟨-, hprefix, -⟩ := findWord_eq_some_iff.mp hfind
  have hfits : i + headerDelimeter.length ≤ chunk.length := by
    have hlength := hprefix.length_le
    rw [List.length_drop] at hlength
    have h4 : headerDelimeter.length = 4 := rfl
    omega
  refine ⟨c, ?_, ?_⟩
  · rw [processAll, List.foldlM_cons, hprocess]
    exact hrest
  · rw [List.drop_append_of_le_length hfits]
    exact h

/-- However the stream is cut, it is delivered exactly if its first chunk reaches behind the delimiter and its header
does not end in a line break. -/
theorem processAll_delivers_iff {H B chunk : Bytes} {chunks : List Bytes} {n : Nat} (hH : ¬ headerDelimeter <:+: H)
    (hstream : (chunk :: chunks).flatten = H ++ headerDelimeter ++ B) (hn : 0 < n) (hle : n ≤ B.length) :
    Delivers n B ((new n).processAll (chunk :: chunks)) ↔
      H.length + headerDelimeter.length ≤ chunk.length ∧ ¬ [13, 10] <:+ H := by
  rw [List.flatten_cons] at hstream
  rw [← findWord_eq_length_iff hH hstream]
  cases hfind : findWord headerDelimeter chunk with
  | none =>
    rw [processAll_of_none chunks hfind]
    refine iff_of_false ?_ nofun
    rintro ⟨c, content, hresult, -⟩
    cases hresult
  | some i =>
    obtain ⟨c, hall, h⟩ := processAll_of_some chunks hn hfind
    rw [hstream] at h
    rw [hall, Option.some.injEq]
    constructor
    · rintro ⟨_, content, ⟨⟩, hB, -⟩
      have hlength := congrArg List.length (h.data.symm.trans hB)
      have htotal := congrArg List.length hstream
      simp only [List.length_drop, List.length_append] at hlength htotal
      omega
    · rintro rfl
      have hB : c.streamedData = B := by
        rw [h.data, ← List.length_append, List.drop_left]
      rcases h.reported with ⟨-, -, hlt⟩ | ⟨hbytes, hcalls, -⟩
      · rw [h.receivedBytes, ← h.data, hB] at hlt
        omega
      · refine ⟨c, _, rfl, hB, hcalls, if_neg ?_⟩
        omega

/-- The header and the first byte come together. -/
theorem processAll_delivers_two :
    Delivers 2 [1, 2] ((new 2).processAll [[97, 13, 10, 13, 10, 1], [2]]) := by
  have hH : ¬ headerDelimeter <:+: [97] := fun h => absurd h.length_le (by decide)
  refine (processAll_delivers_iff (B := [1, 2]) hH rfl (by decide : 0 < 2) (by decide)).mpr ⟨by decide, fun h => ?_⟩
  exact absurd h.length_le (by decide)

/-- Cut inside of the delimiter, the stream makes the handler raise; a header with a line break at its end leaves a
line break in the data. -/
theorem processAll_cut :
    ([[97, 13, 10], [13, 10, 1]] : List Bytes).flatten = [97] ++ headerDelimeter ++ [1] ∧
      (new 1).processAll [[97, 13, 10], [13, 10, 1]] = .error "attempt to perform arithmetic on a nil value" ∧
      ¬ Delivers 1 [1] ((new 1).processAll [[97, 13, 10], [13, 10, 1]]) ∧
      ((new 1).processAll [[97, 13, 10, 13, 10, 13, 10, 1]]).map streamedData = .ok [13, 10, 1] := by
  have hraise : (new 1).processAll [[97, 13, 10], [13, 10, 1]] =
      .error "attempt to perform arithmetic on a nil value" := rfl
  refine ⟨rfl, hraise, ?_, rfl⟩
  rintro ⟨c, content, hresult, -⟩
  rw [hraise] at hresult
  cases hresult

end TcpConnection

end Atf
