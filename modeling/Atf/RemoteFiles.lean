import Atf.ConfigFiles
import Atf.FileTransfer

/-!
# Files of the remote host (`remote_file_utils.lua`, `remote_client_lua_wrapper.cc`, `utils_manager.cc`)

A script gives the parameters of a call as Lua strings, which may hold any bytes. The wrapper reads each of them as
a C string, the handler of the server takes the strings apart by their types, and the result of the function it calls
is the code of the response. Here a character of a string is a byte.

`HandleResult` turns the code into two booleans, "the call worked" and its result. For a call with a boolean result
both are the same, so that "there is no such file" is also "the call did not work": `CreateFile` gives up in either
case and never creates a file (`createFile_eq`).
-/

namespace Atf
open Lua

/-! ### The Lua wrapper -/

/-- A `std::string` made of a `char *`. -/
def cString (s : String) : String := String.ofList (s.toList.takeWhile (· ≠ '\x00'))

def getRpcParameters (parameters : List Parameter) : List Parameter := parameters.map fun p => (cString p.1, p.2)

/-! ### The handlers of the server -/

/-- The bytes of a text whose characters are bytes. -/
def bytesOf (s : Text) : Bytes := s.map fun c => UInt8.ofNat c.toNat

def ofBytes (s : Bytes) : Text := s.map fun b => Char.ofNat b.toNat

/-- The host that the server runs on, and whether the client has a connection to it. -/
structure RemoteHost where
  connected : Bool
  env : SdlEnv
  malloc : Nat → Bool
  uninit : UInt8

namespace UtilsManager

def kIncorrNumberParams : Bytes := text "Incorrect number of parameters"
def kBadTypeValue : Bytes := text "Bad type of the value"

/-- A handler of a path and a name. -/
def onPathAndName (files : Files) (f : Text → Text → Files × Int) : List Parameter → Files × Response
  | [p₀, p₁] =>
    match getString p₀, getString p₁ with
    | some file_path, some file_name =>
      let (files, res) := f file_path.toList file_name.toList
      (files, ([], res))
    | _, _ => (files, (kBadTypeValue, error_codes.FAILED))
  | _ => (files, (kIncorrNumberParams, error_codes.FAILED))

/-- The handler of `file_update`. -/
def onFileUpdate (env : SdlEnv) (files : Files) : List Parameter → Files × Response
  | [p₀, p₁, p₂] =>
    match getString p₀, getString p₁, getString p₂ with
    | some file_path, some file_name, some file_content =>
      let (files, res) := fileUpdate env files file_path.toList file_name.toList file_content.toList
      (files, ([], res))
    | _, _, _ => (files, (kBadTypeValue, error_codes.FAILED))
  | _ => (files, (kIncorrNumberParams, error_codes.FAILED))

/-- The files as `GetFileContent` reads them; one that cannot be opened is as good as missing. -/
def serverHost (host : RemoteHost) (files : Files) : ServerHost :=
  ⟨fun path => (host.env.read files path.toList).map bytesOf, host.malloc, host.uninit⟩

/-- The functions on files that are bound to names of RPCs. -/
def call (host : RemoteHost) (files : Files) (rpc_name : String) (parameters : List Parameter) :
    LuaM (Files × Response) :=
  match rpc_name with
  | "file_backup" => .ok (onPathAndName files (fileBackup host.env files) parameters)
  | "file_restore" => .ok (onPathAndName files (fileRestore host.env files) parameters)
  | "file_update" => .ok (onFileUpdate host.env files parameters)
  | "file_exists" => .ok (onPathAndName files (fun p n => (files, fileExists files p n)) parameters)
  | "file_delete" => .ok (onPathAndName files (fileDelete host.env files) parameters)
  | "file_content" => .ok (files, (serverHost host files).fileContent parameters)
  | _ => .error "rpc::rpc_error"

end UtilsManager

/-! ### The client -/

def RemoteHost.contentCall (host : RemoteHost) (files : Files) (rpc_name : String) (parameters : List Parameter) :
    LuaM (Files × Response) :=
  if host.connected then UtilsManager.call host files rpc_name parameters
  else .ok (files, ([], error_codes.NO_CONNECTION))

/-- `connection:call`, which returns the code and the text of the response, as far as its first zero. -/
def RemoteHost.luaContentCall (host : RemoteHost) (files : Files) (rpc_name : String) (parameters : List Parameter) :
    LuaM (Files × Int × Bytes) := do
  let (files, data, code) ← host.contentCall files rpc_name (getRpcParameters parameters)
  return (files, code, data.takeWhile (· ≠ 0))

namespace RemoteFileUtils
variable (host : RemoteHost) (files : Files) (remotePathToFile fileName fileContent : String)

/-- Both results of `HandleResult`. -/
def handleResults (isResultBoolean : Bool) (result : Int) (data : Bytes) : LuaM (Bool × (Bool ⊕ Bytes)) := do
  let isSuccess ← handleResult result
  return (isSuccess, if isResultBoolean then .inl isSuccess else .inr data)

/-- What a condition makes of such a result. -/
def isTrue : Bool ⊕ Bytes → Bool
  | .inl b => b
  | .inr _ => true

/-- A call whose result is a boolean. -/
def booleanCall (rpcName : String) (parameters : List Parameter) : LuaM (Files × Bool × (Bool ⊕ Bytes)) := do
  let (files, result, data) ← host.luaContentCall files rpcName parameters
  let results ← handleResults true result data
  return (files, results)

def isFileExists : LuaM (Files × Bool × (Bool ⊕ Bytes)) :=
  booleanCall host files "file_exists" [(remotePathToFile, .STRING), (fileName, .STRING)]

def deleteFile : LuaM (Files × Bool × (Bool ⊕ Bytes)) :=
  booleanCall host files "file_delete" [(remotePathToFile, .STRING), (fileName, .STRING)]

def backupFile : LuaM (Files × Bool × (Bool ⊕ Bytes)) :=
  booleanCall host files "file_backup" [(remotePathToFile, .STRING), (fileName, .STRING)]

def restoreFile : LuaM (Files × Bool × (Bool ⊕ Bytes)) :=
  booleanCall host files "file_restore" [(remotePathToFile, .STRING), (fileName, .STRING)]

def updateFileContent : LuaM (Files × Bool × (Bool ⊕ Bytes)) :=
  booleanCall host files "file_update"
    [(remotePathToFile, .STRING), (fileName, .STRING), (fileContent, .STRING)]

/-- The first result; a second one is that of `updateFileContent`. -/
def createFile : LuaM (Files × Bool) := do
  let (files, result, isExists) ← isFileExists host files remotePathToFile fileName
  if !result || (result && isTrue isExists) then return (files, false)
  else
    let (files, result, _) ← updateFileContent host files remotePathToFile fileName fileContent
    return (files, result)

end RemoteFileUtils

/-! ### What a call does -/

section Calls
variable {host : RemoteHost} {files : Files} {path name content : String}

/-- The path that a call gives to the functions of the host. -/
def remotePath (path name : String) : Text := UtilsManager.joinPath (cString path).toList (cString name).toList

theorem toList_joinPath (path part_path : String) :
    (joinPath path part_path).toList = UtilsManager.joinPath path.toList part_path.toList := by
  unfold joinPath UtilsManager.joinPath
  split <;> simp

@[simp] theorem toList_cString (s : String) : (cString s).toList = s.toList.takeWhile (· ≠ '\x00') :=
  String.toList_ofList

theorem takeWhile_cString (s : String) :
    (cString s).toList.takeWhile (· ≠ '\x00') = s.toList.takeWhile (· ≠ '\x00') := by
  rw [toList_cString, List.takeWhile_takeWhile]
  simp

theorem luaContentCall_file_exists (hconnected : host.connected = true) :
    host.luaContentCall files "file_exists" [(path, .STRING), (name, .STRING)] =
      .ok (files, UtilsManager.toResult (files (remotePath path name)).isSome, []) := by
  simp only [RemoteHost.luaContentCall, RemoteHost.contentCall, hconnected, if_true, UtilsManager.call]
  rfl

theorem onFileUpdate_eq :
    UtilsManager.onFileUpdate host.env files
      (getRpcParameters [(path, .STRING), (name, .STRING), (content, .STRING)]) =
      if host.env.creatable (remotePath path name)
      then (files.set (remotePath path name) (content.toList.takeWhile (· ≠ '\x00')), [], error_codes.SUCCESS)
      else (files, [], error_codes.FAILED) := by
  have hupdate : UtilsManager.fileUpdate host.env files (cString path).toList (cString name).toList
      (cString content).toList =
      if host.env.creatable (remotePath path name)
      then (files.set (remotePath path name) (content.toList.takeWhile (· ≠ '\x00')), error_codes.SUCCESS)
      else (files, error_codes.FAILED) := by
    rw [UtilsManager.fileUpdate, takeWhile_cString]
    rfl
  simp only [getRpcParameters, List.map_cons, List.map_nil, UtilsManager.onFileUpdate, getString, if_true, hupdate]
  split <;> rfl

/-- With a connection no file is ever created: the call works only for a file that exists. -/
theorem createFile_eq (hconnected : host.connected = true) :
    RemoteFileUtils.createFile host files path name content = .ok (files, false) := by
  have hexists : RemoteFileUtils.isFileExists host files path name =
      .ok (files, (files (remotePath path name)).isSome, .inl (files (remotePath path name)).isSome) := by
    rw [RemoteFileUtils.isFileExists, RemoteFileUtils.booleanCall, luaContentCall_file_exists hconnected]
    cases (files (remotePath path name)).isSome <;> rfl
  rw [RemoteFileUtils.createFile, hexists]
  cases (files (remotePath path name)).isSome <;> rfl

/-! ### Creating a file -/

/-- A missing file that can be written is created with the content, and an existing one is left alone. -/
structure CreatesMissing (host : RemoteHost) (files : Files) (path name content : String)
    (result : LuaM (Files × Bool)) : Prop where
  created : files (remotePath path name) = none → host.env.creatable (remotePath path name) = true →
    result = .ok (files.set (remotePath path name) content.toList, true)
  kept : files (remotePath path name) ≠ none → result = .ok (files, false)

/-- `CreateFile` does so exactly if the file exists or cannot be written, when there is nothing to create. -/
theorem createFile_createsMissing_iff (hconnected : host.connected = true) :
    CreatesMissing host files path name content (RemoteFileUtils.createFile host files path name content) ↔
      (files (remotePath path name)).isSome = true ∨ host.env.creatable (remotePath path name) = false := by
  rw [createFile_eq hconnected]
  constructor
  · intro h
    by_contra hneg
    rw [not_or, Bool.not_eq_true, Option.isSome_eq_false_iff, Option.isNone_iff_eq_none, Bool.not_eq_false] at hneg
    have hresult := Except.ok.inj (h.created hneg.1 hneg.2)
    exact Bool.false_ne_true (congrArg Prod.snd hresult)
  · intro h
    refine ⟨fun hnone hcreatable => ?_, fun _ => rfl⟩
    rw [hnone, hcreatable] at h
    simp at h

end Calls

/-- A connected host on which every file can be read and written. -/
def openHost : RemoteHost :=
  ⟨true, ⟨none, "", true, fun _ => true, fun _ => true, fun _ => true, fun _ => .ok []⟩,
    fun n => decide (n ≤ kMaxSizeData), 0⟩

/-- A file that exists is kept. -/
theorem createFile_existing :
    CreatesMissing openHost (Table.empty.set "/tmp/a".toList []) "/tmp" "a" "b"
      (RemoteFileUtils.createFile openHost (Table.empty.set "/tmp/a".toList []) "/tmp" "a" "b") := by
  refine (createFile_createsMissing_iff rfl).mpr (.inl ?_)
  decide +kernel

/-- A file that is missing is not created. -/
theorem createFile_missing :
    RemoteFileUtils.createFile openHost Table.empty "/tmp" "a" "b" = .ok (Table.empty, false) ∧
      ¬ CreatesMissing openHost Table.empty "/tmp" "a" "b"
        (RemoteFileUtils.createFile openHost Table.empty "/tmp" "a" "b") := by
  have heq : RemoteFileUtils.createFile openHost Table.empty "/tmp" "a" "b" = .ok (Table.empty, false) :=
    createFile_eq rfl
  refine ⟨heq, fun h => ?_⟩
  have hcreated := h.created rfl rfl
  rw [heq] at hcreated
  exact Bool.false_ne_true (congrArg Prod.snd (Except.ok.inj hcreated))

/-! ### Content that is written and served -/

theorem toNat_ofNat_byte (b : UInt8) : (Char.ofNat b.toNat).toNat = b.toNat := by
  have hlt : b.toNat < 256 := b.toNat_lt
  have hvalid : b.toNat.isValidChar := .inl (by omega)
  rw [Char.ofNat, dif_pos hvalid]
  rfl

theorem bytesOf_ofBytes (s : Bytes) : bytesOf (ofBytes s) = s := by
  rw [bytesOf, ofBytes, List.map_map]
  refine (List.map_congr_left fun b _ => ?_).trans (List.map_id s)
  rw [Function.comp_apply, toNat_ofNat_byte, UInt8.ofNat_toNat, id]

theorem ofNat_byte_eq_zero_iff (b : UInt8) : Char.ofNat b.toNat = '\x00' ↔ b = 0 := by
  constructor
  · intro h
    have htoNat := congrArg Char.toNat h
    rw [toNat_ofNat_byte] at htoNat
    exact UInt8.toNat_inj.mp htoNat
  · rintro rfl
    rfl

/-- What is kept of bytes is what precedes the first zero. -/
theorem takeWhile_ofBytes (s : Bytes) : (ofBytes s).takeWhile (· ≠ '\x00') = ofBytes (s.takeWhile (· ≠ 0)) := by
  rw [ofBytes, List.takeWhile_map, ← ofBytes]
  congr 2
  funext b
  simp only [Function.comp_apply, ne_eq, ofNat_byte_eq_zero_iff]

/-- A request for bytes of a file, as `file_call` makes it of the parameters of a script. -/
def contentRequest (path name : String) (offset max_size_content : Nat) : List Parameter :=
  getRpcParameters [(path, .STRING), (name, .STRING)] ++
    [offsetParameter offset, (toString max_size_content, .INT)]

/-- The offset of the next request, 0 at the end. -/
def nextOffset (s : Bytes) (offset m : Nat) : Int :=
  if s.length ≤ offset + (window s offset m).length then 0 else ((offset + (window s offset m).length : Nat) : Int)

/-- Every request up to the end of the bytes is answered with the bytes asked for and the next offset. -/
def Serves (host : RemoteHost) (files : Files) (path name : String) (s : Bytes) : Prop :=
  ∀ offset m : Nat, offset ≤ s.length → m < 2 ^ 64 →
    (host.contentCall files "file_content" (contentRequest path name offset m)).map (·.2) =
      .ok (window s offset m, toInt (nextOffset s offset m))

section Served
variable {host : RemoteHost} {files files' : Files} {path name : String} {s : Bytes}
  (hconnected : host.connected = true) (hlen : s.length < 2 ^ 63)
  (hmalloc : ∀ size, size ≤ s.length → host.malloc size = true)
include hconnected

theorem luaContentCall_file_update {content : String} {data : Bytes}
    (hcall : host.luaContentCall files "file_update" [(path, .STRING), (name, .STRING), (content, .STRING)] =
      .ok (files', error_codes.SUCCESS, data)) :
    files' = files.set (remotePath path name) (content.toList.takeWhile (· ≠ '\x00')) := by
  simp only [RemoteHost.luaContentCall, RemoteHost.contentCall, hconnected, if_true, UtilsManager.call,
    onFileUpdate_eq] at hcall
  split at hcall
  · exact (congrArg Prod.fst (Except.ok.inj hcall)).symm
  · have hcode := congrArg (·.2.1) (Except.ok.inj hcall)
    cases hcode

theorem contentCall_eq {offset m : Nat} (hoffset : offset < 2 ^ 63) (hm : m < 2 ^ 64) :
    (host.contentCall files "file_content" (contentRequest path name offset m)).map (·.2) =
      let (file_content, next) := (UtilsManager.serverHost host files).getFileContent (cString path) (cString name)
        offset m
      .ok (file_content, toInt next) := by
  simp only [RemoteHost.contentCall, hconnected, if_true, UtilsManager.call, Except.map]
  simp only [contentRequest, getRpcParameters, List.map_cons, List.map_nil, List.cons_append, List.nil_append,
    ServerHost.fileContent, getString, if_true, getLong_offsetParameter hoffset, getSize_toString hm]

omit hconnected in
theorem file_serverHost : (UtilsManager.serverHost host files).file (joinPath (cString path) (cString name)) =
    (host.env.read files (remotePath path name)).map bytesOf := by
  show (host.env.read files (joinPath (cString path) (cString name)).toList).map bytesOf = _
  rw [toList_joinPath, ← remotePath]

include hlen hmalloc in
theorem serves_of_file {t : Text} (hfile : host.env.read files (remotePath path name) = some t) (ht : bytesOf t = s) :
    Serves host files path name s := by
  intro offset m hoffset hm
  have hserved : (UtilsManager.serverHost host files).file (joinPath (cString path) (cString name)) = some s := by
    rw [file_serverHost, hfile, Option.map_some, ht]
  have hsize : (window s offset m).length ≤ s.length := by
    rw [length_window]
    split <;> omega
  have hwindow := ServerHost.getFileContent_of_le hserved hlen (hmalloc _ hsize) hoffset
  rw [contentCall_eq hconnected (by omega) hm]
  dsimp only
  rw [hwindow.next, hwindow.data]
  rfl

/-- A file that cannot be opened is answered with an error. -/
theorem contentCall_of_unread (hread : host.env.read files (remotePath path name) = none) :
    (host.contentCall files "file_content" (contentRequest path name 0 0)).map (·.2) =
      .ok ([], toInt error_codes.FAILED) := by
  have hmissing : (UtilsManager.serverHost host files).file (joinPath (cString path) (cString name)) = none := by
    rw [file_serverHost, hread, Option.map_none]
  rw [contentCall_eq hconnected (by decide) (by decide), ServerHost.getFileContent, hmissing]

/-- After a `file_update` that succeeded, the bytes given are served exactly if there is no zero among them and the
file can be read. -/
theorem file_update_serves_iff {data : Bytes}
    (hcall : host.luaContentCall files "file_update"
      [(path, .STRING), (name, .STRING), (String.ofList (ofBytes s), .STRING)] =
      .ok (files', error_codes.SUCCESS, data))
    (hlen : s.length < 2 ^ 63) (hmalloc : ∀ size, size ≤ s.length → host.malloc size = true) :
    Serves host files' path name s ↔ 0 ∉ s ∧ host.env.readable (remotePath path name) = true := by
  have hfiles := luaContentCall_file_update hconnected hcall
  rw [String.toList_ofList, takeWhile_ofBytes] at hfiles
  have hfile : files' (remotePath path name) = some (ofBytes (s.takeWhile (· ≠ 0))) := by
    rw [hfiles, Table.set_self]
  have hprefix : (s.takeWhile (· ≠ 0)).length ≤ s.length := (List.takeWhile_prefix _).length_le
  by_cases hreadable : host.env.readable (remotePath path name) = true
  · have hserved := serves_of_file hconnected (by omega) (fun size hsize => hmalloc size (hsize.trans hprefix))
      (SdlEnv.read_of_present hfile hreadable) (bytesOf_ofBytes _)
    constructor
    · intro h
      refine ⟨fun hzero => ?_, hreadable⟩
      -- the whole file is asked for
      have hwhole := (h 0 0 (Nat.zero_le _) (by decide)).symm.trans (hserved 0 0 (Nat.zero_le _) (by decide))
      have heq : s = s.takeWhile (· ≠ 0) := congrArg Prod.fst (Except.ok.inj hwhole)
      rw [heq] at hzero
      have hne := List.mem_takeWhile_imp hzero
      simp at hne
    · rintro ⟨hzero, -⟩
      have hkept : s.takeWhile (· ≠ 0) = s := List.takeWhile_eq_self_iff.mpr fun b hb => decide_eq_true (by
        rintro rfl
        exact hzero hb)
      rwa [hkept] at hserved
  · refine iff_of_false (fun h => ?_) fun h => hreadable h.2
    have hread : host.env.read files' (remotePath path name) = none := if_neg hreadable
    have hwhole := (h 0 0 (Nat.zero_le _) (by decide)).symm.trans (contentCall_of_unread hconnected hread)
    obtain ⟨hnil, hcode⟩ := Prod.mk.inj (Except.ok.inj hwhole)
    have hempty : s = [] := hnil
    subst hempty
    cases hcode

end Served

theorem malloc_openHost (s : Bytes) (h : s.length ≤ kMaxSizeData) :
    ∀ size, size ≤ s.length → openHost.malloc size = true :=
  fun _ hsize => decide_eq_true (hsize.trans h)

theorem openHost_file_update (content : String) :
    openHost.luaContentCall Table.empty "file_update" [("/tmp", .STRING), ("a", .STRING), (content, .STRING)] =
      .ok (Table.empty.set (remotePath "/tmp" "a") (content.toList.takeWhile (· ≠ '\x00')), error_codes.SUCCESS,
        []) := by
  simp only [RemoteHost.luaContentCall, RemoteHost.contentCall, UtilsManager.call, onFileUpdate_eq]
  rfl

/-- Three bytes, none of which is zero. -/
theorem file_update_serves_text : ∃ files' data,
    openHost.luaContentCall Table.empty "file_update"
      [("/tmp", .STRING), ("a", .STRING), (String.ofList (ofBytes [1, 2, 3]), .STRING)] =
        .ok (files', error_codes.SUCCESS, data) ∧
      Serves openHost files' "/tmp" "a" [1, 2, 3] :=
  ⟨_, _, openHost_file_update _, (file_update_serves_iff rfl (openHost_file_update _) (by decide)
    (malloc_openHost [1, 2, 3] (by decide))).mpr ⟨by decide, rfl⟩⟩

/-- Of bytes with a zero in the middle only the first one is written. -/
theorem file_update_zero_lost : ∃ files' data,
    openHost.luaContentCall Table.empty "file_update"
      [("/tmp", .STRING), ("a", .STRING), (String.ofList (ofBytes [1, 0, 2]), .STRING)] =
        .ok (files', error_codes.SUCCESS, data) ∧
      (openHost.contentCall files' "file_content" (contentRequest "/tmp" "a" 0 0)).map (·.2) =
        .ok ([1], error_codes.SUCCESS) ∧
      ¬ Serves openHost files' "/tmp" "a" [1, 0, 2] := by
  have hcontent : ((String.ofList (ofBytes [1, 0, 2])).toList.takeWhile (· ≠ '\x00')) = ofBytes [1] := by
    rw [String.toList_ofList, takeWhile_ofBytes]
    rfl
  have hserved : Serves openHost (Table.empty.set (remotePath "/tmp" "a") (ofBytes [1])) "/tmp" "a" [1] :=
    serves_of_file rfl (by decide) (malloc_openHost [1] (by decide)) (SdlEnv.read_of_present (Table.set_self ..) rfl)
      (bytesOf_ofBytes [1])
  have hone := hserved 0 0 (Nat.zero_le _) (by decide)
  refine ⟨_, _, openHost_file_update _, ?_, ?_⟩
  · rw [hcontent]
    exact hone
  · rw [hcontent]
    intro h
    cases (h 0 0 (Nat.zero_le _) (by decide)).symm.trans hone

end Atf
