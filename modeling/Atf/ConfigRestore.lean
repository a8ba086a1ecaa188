import Atf.ConfigFiles
import Atf.Lib.Run

/-!
# A store is restored without touching the others (`SDL.lua`)

`backup` copies the file of a store beside it, `restore` copies it back and removes the copy; `set` writes the file of
the store and nothing else (`set_frame`). So the store is as it was at the backup, unless its `restore` names another
file: that of `HMICapCache` names the file of `AppInfo`, whose backup is not there, and does nothing.
-/

namespace Atf
open Lua

namespace SDL
variable {env : SdlEnv} {files files' : Files} {path : Text}

/-! ### Paths -/

theorem joinPath_pathAndName {p n : Text} (h : getPathAndName path = .ok (p, n)) :
    UtilsManager.joinPath p n = path := by
  unfold getPathAndName at h
  split at h
  · rename_i hslash
    cases h
    have hne : path.rdropWhile (· ≠ '/') ≠ [] := by
      intro hnil
      have := List.rdropWhile_eq_nil_iff.mp hnil '/' hslash
      simp at this
    have hlast : (path.rdropWhile (· ≠ '/')).getLast? = some '/' := by
      have := List.rdropWhile_last_not _ _ hne
      rw [List.getLast?_eq_some_getLast hne]
      simpa using this
    rw [UtilsManager.joinPath, if_pos hlast, List.rdropWhile_append_rtakeWhile]
  · cases h

theorem joinPath_append (p n s : Text) : UtilsManager.joinPath p (n ++ s) = UtilsManager.joinPath p n ++ s := by
  unfold UtilsManager.joinPath
  split
  · rw [List.append_assoc]
  · rw [List.append_assoc, List.cons_append]

theorem append_kBackupSuffix (path : Text) : path ++ UtilsManager.kBackupSuffix = origin path := rfl

theorem origin_inj {path path' : Text} (h : origin path = origin path') : path = path' := List.append_cancel_right h

theorem origin_ne (path : Text) : origin path ≠ path := by
  intro h
  have := congrArg List.length h
  rw [origin, List.length_append] at this
  simp at this

/-- A path that the remote host can be asked for. -/
def Addressable (env : SdlEnv) (path : Text) : Prop := env.remote = true → '/' ∈ path

theorem Addressable.origin (h : Addressable env path) : Addressable env (origin path) :=
  fun hremote => List.mem_append_left _ (h hremote)

theorem exists_pathAndName (h : '/' ∈ path) : ∃ p n, getPathAndName path = .ok (p, n) := ⟨_, _, if_pos h⟩

theorem slash_mem_of_pathAndName {r : Text × Text} (h : getPathAndName path = .ok r) : '/' ∈ path := by
  unfold getPathAndName at h
  split at h
  · assumption
  · cases h

theorem handleResult_toResult (success : Bool) :
    RemoteFileUtils.handleResult (UtilsManager.toResult success) = .ok success := by
  cases success with
  | false => rfl
  | true => rfl

/-! ### The operations on files -/

/-- The remote host is asked for a file under the name that its path was cut into. -/
theorem exists_remoteName (h : Addressable env path) (hremote : env.remote = true) :
    ∃ p n, getPathAndName path = .ok (p, n) ∧ UtilsManager.joinPath p n = path ∧
      RemoteFileUtils.handleResult (UtilsManager.fileExists files p n) = .ok (files path).isSome := by
  obtain ⟨p, n, hname⟩ := exists_pathAndName (h hremote)
  refine ⟨p, n, hname, joinPath_pathAndName hname, ?_⟩
  rw [UtilsManager.fileExists, handleResult_toResult, joinPath_pathAndName hname]

/-- The remote host finds a file that cannot be read, this host does not. -/
theorem isFileExist_eq (h : Addressable env path) :
    isFileExist env files path = .ok ((files path).isSome && (env.remote || env.readable path)) := by
  unfold isFileExist
  split
  · rename_i hremote
    obtain ⟨p, n, hname, -, hexists⟩ := exists_remoteName h hremote
    rw [hname, hremote, Bool.true_or, Bool.and_true]
    exact hexists
  · rename_i hlocal
    rw [Bool.eq_false_iff.mpr hlocal, Bool.false_or, SdlEnv.read]
    cases env.readable path <;> simp

theorem addressable_of_isFileExist {b : Bool} (h : isFileExist env files path = .ok b) : Addressable env path := by
  intro hremote
  rw [isFileExist, if_pos hremote] at h
  obtain ⟨r, hname, -⟩ := bind_eq_ok.mp h
  exact slash_mem_of_pathAndName hname

theorem getFileContent_eq (h : Addressable env path) :
    getFileContent env files (some path) = .ok (env.read files path) := by
  rw [getFileContent]
  split
  · rename_i hremote
    obtain ⟨p, n, hname, hjoin, hexists⟩ := exists_remoteName h hremote
    rw [hname]
    dsimp only [bind, Except.bind]
    rw [hexists, hjoin, SdlEnv.read]
    cases files path with
    | none => cases env.readable path <;> rfl
    | some content => rfl
  · rfl

theorem getFileContent_congr (h : files path = files' path) :
    getFileContent env files (some path) = getFileContent env files' (some path) := by
  by_cases haddress : Addressable env path
  · rw [getFileContent_eq haddress, getFileContent_eq haddress, SdlEnv.read, SdlEnv.read, h]
  · obtain ⟨hremote, hslash⟩ := Classical.not_imp.mp haddress
    have herror : getPathAndName path = .error "attempt to perform arithmetic on local 'pos' (a nil value)" :=
      if_neg hslash
    rw [getFileContent, getFileContent, if_pos hremote, if_pos hremote, herror]
    rfl

/-- Only the file itself is written. -/
theorem saveFileContent_frame {pPathToFile : Option Text} {pContent : Text}
    (h : saveFileContent env files pPathToFile pContent = .ok files') :
    ∃ path, pPathToFile = some path ∧ ∀ q, q ≠ path → files' q = files q := by
  unfold saveFileContent at h
  split at h
  · cases h
  · rename_i path
    refine ⟨path, rfl, fun q hq => ?_⟩
    split at h
    · obtain ⟨⟨p, n⟩, hname, h⟩ := bind_eq_ok.mp h
      dsimp only at h
      obtain ⟨b, -, h⟩ := bind_eq_ok.mp h
      cases h
      unfold UtilsManager.fileUpdate
      rw [joinPath_pathAndName hname]
      dsimp only
      split
      · exact Table.set_of_ne _ _ hq
      · rfl
    · cases h
      split
      · exact Table.set_of_ne _ _ hq
      · rfl

theorem copy_of_present {src dest content : Text} (h : files src = some content) (hreadable : env.readable src = true)
    (hcreatable : env.creatable dest = true) :
    UtilsManager.copy env files src dest = (files.set dest content, !content.isEmpty) := by
  rw [UtilsManager.copy, SdlEnv.read_of_present h hreadable]
  exact if_pos hcreatable

theorem fileDelete_of_present {p n content : Text} (h : files (UtilsManager.joinPath p n) = some content)
    (hremovable : env.removable (UtilsManager.joinPath p n) = true) :
    UtilsManager.fileDelete env files p n = (files.erase (UtilsManager.joinPath p n), error_codes.SUCCESS) := by
  rw [UtilsManager.fileDelete, h, hremovable]
  rfl

theorem restore_of_absent (habsent : files (origin path) = none) (h : restore env files (some path) = .ok files') :
    files' = files := by
  obtain ⟨b, hexists, h⟩ := bind_eq_ok.mp h
  rw [isFileExist_eq (addressable_of_isFileExist hexists), habsent] at hexists
  cases hexists
  cases h
  rfl

theorem restore_of_present {content : Text} (haddress : Addressable env path)
    (hpresent : files (origin path) = some content) (hreadable : env.readable (origin path) = true)
    (hcreatable : env.creatable path = true) (hremovable : env.removable (origin path) = true) :
    restore env files (some path) = .ok ((files.set path content).erase (origin path)) := by
  have hcopy : files.set path content (origin path) = some content := by
    rw [Table.set_of_ne _ _ (origin_ne path), hpresent]
  rw [restore, isFileExist_eq haddress.origin, hpresent, hreadable, Bool.or_true]
  dsimp only [bind, Except.bind]
  rw [Option.isSome_some, Bool.and_self, if_pos rfl]
  split
  · rename_i hremote
    obtain ⟨p, n, hname⟩ := exists_pathAndName (haddress hremote)
    have hname' : UtilsManager.joinPath p (n ++ UtilsManager.kBackupSuffix) = origin path := by
      rw [joinPath_append, joinPath_pathAndName hname]
      rfl
    have hdelete := congrArg (files.set path content) hname'
    have hrestore : UtilsManager.fileRestore env files p n =
        ((files.set path content).erase (origin path), UtilsManager.toResult !content.isEmpty) := by
      rw [UtilsManager.fileRestore, joinPath_pathAndName hname]
      dsimp only
      rw [append_kBackupSuffix, copy_of_present hpresent hreadable hcreatable]
      dsimp only
      rw [fileDelete_of_present (hdelete.trans hcopy) (hname' ▸ hremovable), hname']
    rw [hname]
    dsimp only
    rw [hrestore, handleResult_toResult]
    rfl
  · rw [cp, SdlEnv.read_of_present hpresent hreadable, rm, if_pos hremovable]
    dsimp only
    rw [if_pos hcreatable]
    rfl

/-- Without a backup left over, the file is copied. -/
theorem backup_spec {content : Text} (habsent : files (origin path) = none) (hfile : files path = some content)
    (hreadable : env.readable path = true) (hcreatable : env.creatable (origin path) = true)
    (h : backup env files (some path) = .ok files') :
    Addressable env path ∧ files' = files.set (origin path) content := by
  obtain ⟨files₁, hrestore, h⟩ := bind_eq_ok.mp h
  cases restore_of_absent habsent hrestore
  dsimp only at h
  split at h
  · obtain ⟨⟨p, n⟩, hname, h⟩ := bind_eq_ok.mp h
    dsimp only at h
    obtain ⟨b, -, h⟩ := bind_eq_ok.mp h
    cases h
    refine ⟨fun _ => slash_mem_of_pathAndName hname, ?_⟩
    rw [UtilsManager.fileBackup, joinPath_pathAndName hname]
    dsimp only
    rw [append_kBackupSuffix, copy_of_present hfile hreadable hcreatable]
  · rename_i hlocal
    cases h
    refine ⟨fun hremote => absurd hremote hlocal, ?_⟩
    rw [cp, SdlEnv.read_of_present hfile hreadable]
    dsimp only
    rw [if_pos hcreatable]

/-! ### The stores -/

section Set
variable {file : LuaM (Option Text)}

theorem setParam_frame {pParam pValue : Text} (h : setParam env files file pParam pValue = .ok files') :
    ∃ path, file = .ok (some path) ∧ ∀ q, q ≠ path → files' q = files q := by
  obtain ⟨pPathToFile, hfile, h⟩ := bind_eq_ok.mp h
  obtain ⟨content, -, h⟩ := bind_eq_ok.mp h
  split at h
  · obtain ⟨content', -, h⟩ := bind_eq_ok.mp h
    rw [hfile] at h ⊢
    obtain ⟨path, rfl, hframe⟩ := saveFileContent_frame h
    exact ⟨path, rfl, hframe⟩
  · cases h

theorem setJson_frame {value : Value} (h : setJson env files file value = .ok files') :
    ∃ path, file = .ok (some path) ∧ ∀ q, q ≠ path → files' q = files q := by
  obtain ⟨content, -, h⟩ := bind_eq_ok.mp h
  obtain ⟨pPathToFile, hfile, h⟩ := bind_eq_ok.mp h
  obtain ⟨path, rfl, hframe⟩ := saveFileContent_frame h
  exact ⟨path, hfile, hframe⟩

theorem setStoredJson_frame {value : Value} (h : setStoredJson env files file value = .ok files') :
    ∃ path, file = .ok (some path) ∧ ∀ q, q ≠ path → files' q = files q := by
  obtain ⟨content, hencode, h⟩ := bind_eq_ok.mp h
  obtain ⟨folder, -, h⟩ := bind_eq_ok.mp h
  obtain ⟨_, -, h⟩ := bind_eq_ok.mp h
  exact setJson_frame (bind_eq_ok.mpr ⟨content, hencode, h⟩)

end Set

inductive Store
  | INI | LOGGER | PreloadedPT | HMICap | AppInfo | HMICapCache
deriving DecidableEq, Repr

namespace Store

/-- What `set` is given. -/
def Args : Store → Type
  | INI => Text × Text
  | LOGGER => Text × Text
  | PreloadedPT => Value
  | HMICap => Value
  | AppInfo => Value
  | HMICapCache => Value

def file (env : SdlEnv) (files : Files) : Store → LuaM (Option Text)
  | INI => INI.file env
  | LOGGER => LOGGER.file env
  | PreloadedPT => PreloadedPT.file env files
  | HMICap => HMICap.file env files
  | AppInfo => AppInfo.file env files
  | HMICapCache => HMICapCache.file env files

def set (env : SdlEnv) : (store : Store) → Files → store.Args → LuaM Files
  | INI, files, (pParam, pValue) => INI.set env files pParam pValue
  | LOGGER, files, (pParam, pValue) => LOGGER.set env files pParam pValue
  | PreloadedPT, files, pPPT => PreloadedPT.set env files pPPT
  | HMICap, files, pHMICap => HMICap.set env files pHMICap
  | AppInfo, files, pAppInfo => AppInfo.set env files pAppInfo
  | HMICapCache, files, pHmiCapCache => HMICapCache.set env files pHmiCapCache

def backup (env : SdlEnv) (files : Files) : Store → LuaM Files
  | INI => INI.backup env files
  | LOGGER => LOGGER.backup env files
  | PreloadedPT => PreloadedPT.backup env files
  | HMICap => HMICap.backup env files
  | AppInfo => AppInfo.backup env files
  | HMICapCache => HMICapCache.backup env files

def restore (env : SdlEnv) (files : Files) : Store → LuaM Files
  | INI => INI.restore env files
  | LOGGER => LOGGER.restore env files
  | PreloadedPT => PreloadedPT.restore env files
  | HMICap => HMICap.restore env files
  | AppInfo => AppInfo.restore env files
  | HMICapCache => HMICapCache.restore env files

/-- The store whose file `restore` names. -/
def restored : Store → Store
  | HMICapCache => AppInfo
  | store => store

theorem backup_eq (store : Store) : store.backup env files = store.file env files >>= SDL.backup env files := by
  cases store <;> rfl

theorem restore_eq (store : Store) :
    store.restore env files = store.restored.file env files >>= SDL.restore env files := by
  cases store <;> rfl

/-- `set` writes the file of the store and no other. -/
theorem set_frame {store : Store} {args : store.Args} (h : store.set env files args = .ok files') :
    ∃ path, store.file env files = .ok (some path) ∧ ∀ q, q ≠ path → files' q = files q := by
  cases store with
  | INI => exact setParam_frame h
  | LOGGER => exact setParam_frame h
  | PreloadedPT => exact setJson_frame h
  | HMICap => exact setJson_frame h
  | AppInfo => exact setStoredJson_frame h
  | HMICapCache => exact setStoredJson_frame h

end Store

theorem INI.get_congr (h : ∀ path, INI.file env = .ok (some path) → files path = files' path) (pParam : Text) :
    INI.get env files pParam = INI.get env files' pParam := by
  unfold INI.get getParam
  cases hfile : INI.file env with
  | error e => rfl
  | ok pPathToFile =>
    cases pPathToFile with
    | none => rfl
    | some path =>
      dsimp only [bind, Except.bind]
      rw [getFileContent_congr (h path hfile)]

/-- The paths are read from the first store. -/
theorem Store.file_congr (h : ∀ path, INI.file env = .ok (some path) → files path = files' path) (store : Store) :
    store.file env files = store.file env files' := by
  have hparam (name folder : String) : paramFile env files name folder = paramFile env files' name folder := by
    rw [paramFile, paramFile, INI.get_congr h, INI.get_congr h]
  cases store with
  | INI => rfl
  | LOGGER => rfl
  | PreloadedPT => exact hparam ..
  | HMICap => exact hparam ..
  | AppInfo => exact hparam ..
  | HMICapCache => exact hparam ..

/-- The backup of a store does not move the stores. -/
theorem origin_ne_ini {path' : Text} (h : INI.file env = .ok (some path')) : path' ≠ origin path := by
  obtain ⟨_, hconcat, hsome⟩ := map_eq_ok.mp h
  cases hsome
  unfold concat at hconcat
  split at hconcat
  · cases hconcat
    intro heq
    have hlast := congrArg List.getLast? heq
    rw [origin, List.getLast?_append, List.getLast?_append] at hlast
    cases hlast
  · cases hconcat

namespace Store

/-- No file of a store has a backup beside it. -/
def NoBackups (env : SdlEnv) (files : Files) : Prop :=
  ∀ (store : Store) (path : Text), store.file env files = .ok (some path) → files (origin path) = none

/-- The call of `set` leaves every store where it is. -/
def KeepsPaths (env : SdlEnv) (store : Store) (files : Files) (args : store.Args) : Prop :=
  ∀ files', store.set env files args = .ok files' → ∀ s : Store, s.file env files' = s.file env files

/-- A store with a file of its own moves no store. -/
theorem keepsPaths_of_ne {store : Store} (hpath : store.file env files = .ok (some path))
    (hne : ∀ path', INI.file env = .ok (some path') → path' ≠ path) (args : store.Args) :
    store.KeepsPaths env files args := by
  intro files' h s
  obtain ⟨path', hpath', hframe⟩ := set_frame h
  rw [hpath] at hpath'
  cases hpath'
  exact file_congr (fun path' hini => hframe path' (hne path' hini)) s

/-- Copying the file and its backup, and removing the backup, succeed. -/
structure Accessible (env : SdlEnv) (path : Text) : Prop where
  readable : env.readable path = true
  backupReadable : env.readable (origin path) = true
  creatable : env.creatable path = true
  backup : env.creatable (origin path) = true
  removable : env.removable (origin path) = true

/-- The file has its content at the backup, which is gone, and no other file has changed. -/
structure Restored (path : Text) (files₀ files files' : Files) : Prop where
  content : files' path = files₀ path
  backup : files' (origin path) = none
  frame : ∀ q, q ≠ path → q ≠ origin path → files' q = files q

/-- What holds between the backup and the restore. -/
structure Saved (env : SdlEnv) (path : Text) (files₀ files : Files) : Prop where
  paths : ∀ s : Store, s.file env files = s.file env files₀
  backup : files (origin path) = files₀ path
  frame : ∀ q, q ≠ path → q ≠ origin path → files q = files₀ q

variable {store : Store} {files₀ files₁ : Files} {content : Text}

theorem saved_of_backup (hpath : store.file env files₀ = .ok (some path)) (hno : NoBackups env files₀)
    (hfile : files₀ path = some content) (haccess : Accessible env path)
    (hbackup : store.backup env files₀ = .ok files₁) : Addressable env path ∧ Saved env path files₀ files₁ := by
  rw [backup_eq, hpath] at hbackup
  obtain ⟨haddress, rfl⟩ := backup_spec (hno store path hpath) hfile haccess.readable haccess.backup hbackup
  refine ⟨haddress, file_congr fun _ hini => Table.set_of_ne _ _ (origin_ne_ini hini), ?_, fun _ _ hq => ?_⟩
  · rw [Table.set_self, hfile]
  · exact Table.set_of_ne _ _ hq

theorem Saved.set (hs : Saved env path files₀ files) (hpath : store.file env files₀ = .ok (some path))
    {args : store.Args} (hkeeps : store.KeepsPaths env files args) (h : store.set env files args = .ok files') :
    Saved env path files₀ files' := by
  obtain ⟨path', hpath', hframe⟩ := set_frame h
  rw [hs.paths, hpath] at hpath'
  cases hpath'
  refine ⟨fun s => (hkeeps files' h s).trans (hs.paths s), ?_, fun q hq hq' => ?_⟩
  · rw [hframe _ (origin_ne path)]
    exact hs.backup
  · rw [hframe q hq]
    exact hs.frame q hq hq'

theorem restored_of_copy (hfile : files₀ path = some content) :
    Restored path files₀ files ((files.set path content).erase (origin path)) where
  content := by rw [Table.erase_of_ne _ (origin_ne path).symm, Table.set_self, hfile]
  backup := Table.erase_self _ _
  frame := fun q hq hq' => by rw [Table.erase_of_ne _ hq', Table.set_of_ne _ _ hq]

/-- From a state without backups, `backup`, any calls of `set` that leave the stores where they are and `restore`
bring the file of the store back, remove the backup and change no other file, exactly if `restore` names that file:
`HMICapCache` is restored only if its file is that of `AppInfo`. -/
theorem restore_undoes_iff (env : SdlEnv) (store : Store) (hpath : store.file env files₀ = .ok (some path))
    (hno : NoBackups env files₀) (hfile : (files₀ path).isSome = true) (haccess : Accessible env path)
    (hbackup : store.backup env files₀ = .ok files₁)
    (hsets : Run.Reaches (store.set env) (store.KeepsPaths env) files₁ files) :
    (∃ files', store.restore env files = .ok files' ∧ Restored path files₀ files files') ↔
      (store = HMICapCache → AppInfo.file env files₀ = HMICapCache.file env files₀) := by
  obtain ⟨content, hfile⟩ := Option.isSome_iff_exists.mp hfile
  obtain ⟨haddress, hstart⟩ := saved_of_backup hpath hno hfile haccess hbackup
  have hs : Saved env path files₀ files := hsets.invariant hstart fun _ _ _ hs hkeeps h => hs.set hpath hkeeps h
  have hpresent : files (origin path) = some content := hs.backup.trans hfile
  rw [restore_eq, hs.paths]
  constructor
  · rintro ⟨files', hrestore, hrestored⟩ rfl
    obtain ⟨pFilePath, happ, hrestore⟩ := bind_eq_ok.mp hrestore
    cases pFilePath with
    | none => cases hrestore
    | some q =>
      by_cases hq : q = path
      · subst hq
        exact happ.trans hpath.symm
      -- the other file has no backup, so nothing happens and the backup of this one stays
      have habsent : files₀ (origin q) = none := hno AppInfo q happ
      have hne : origin q ≠ path := by
        rintro rfl
        rw [habsent] at hfile
        cases hfile
      have habsent' : files (origin q) = none :=
        (hs.frame _ hne fun heq => hq (origin_inj heq)).trans habsent
      have hbackup := hrestored.backup
      rw [restore_of_absent habsent' hrestore, hpresent] at hbackup
      cases hbackup
  · intro hsame
    have hnamed : store.restored.file env files₀ = .ok (some path) := by
      cases store with
      | HMICapCache => exact (hsame rfl).trans hpath
      | _ => exact hpath
    refine ⟨_, ?_, restored_of_copy hfile⟩
    rw [hnamed]
    exact restore_of_present haddress hpresent haccess.backupReadable haccess.creatable haccess.removable

/-! ### Example: two stores in the storage folder -/

namespace Sample

def localEnv : SdlEnv :=
  { pathToSDL := some "/sdl/".toList, loggerName := "BOOST", remote := false, readable := fun _ => true
    creatable := fun _ => true, removable := fun _ => true, encode := fun _ => .ok "[]".toList }

/-- Two stores are not configured. -/
def ini : Text := "AppStorageFolder=st\nAppInfoStorage=app\nHMICapabilitiesCacheFile=cap\n".toList

def pathOf : Store → Option Text
  | INI => some "/sdl/smartDeviceLink.ini".toList
  | LOGGER => some "/sdl/boostlogconfig.ini".toList
  | PreloadedPT => none
  | HMICap => none
  | AppInfo => some "/sdl/st/app".toList
  | HMICapCache => some "/sdl/st/cap".toList

def initial : Files :=
  ((Table.empty.set "/sdl/smartDeviceLink.ini".toList ini).set "/sdl/st/app".toList "{}".toList).set
    "/sdl/st/cap".toList "{}".toList

theorem file_eq (store : Store) : store.file localEnv initial = .ok (pathOf store) := by
  cases store <;> decide +kernel

theorem noBackups : NoBackups localEnv initial := by
  intro store path h
  rw [file_eq] at h
  cases store with
  | PreloadedPT => cases h
  | HMICap => cases h
  | _ => cases h; decide +kernel

theorem accessible (path : Text) : Accessible localEnv path := ⟨rfl, rfl, rfl, rfl, rfl⟩

end Sample

open Sample in
/-- `AppInfo` is set once between its backup and its restore. -/
theorem restore_undoes_iff_appInfo :
    ∃ files₁ files files', AppInfo.backup localEnv initial = .ok files₁ ∧
      AppInfo.set localEnv files₁ (.table []) = .ok files ∧ AppInfo.restore localEnv files = .ok files' ∧
      Restored "/sdl/st/app".toList initial files files' := by
  have hrun : ((AppInfo.backup localEnv initial >>= fun files₁ => AppInfo.set localEnv files₁ (.table [])).map
      fun files => files "/sdl/st/app".toList) = .ok (some "[]".toList) := by
    decide +kernel
  obtain ⟨files, hrun, -⟩ := map_eq_ok.mp hrun
  obtain ⟨files₁, hbackup, hset⟩ := bind_eq_ok.mp hrun
  have hfile : initial "/sdl/st/app".toList = some "{}".toList := by decide +kernel
  obtain ⟨-, hsaved⟩ := saved_of_backup (file_eq AppInfo) noBackups hfile (accessible _) hbackup
  have hpaths := (hsaved.paths AppInfo).trans (file_eq AppInfo)
  have hkeeps : AppInfo.KeepsPaths localEnv files₁ (.table []) := by
    refine keepsPaths_of_ne hpaths (fun path' hini => ?_) _
    cases hini
    decide +kernel
  have hsets : Run.Reaches (AppInfo.set localEnv) (AppInfo.KeepsPaths localEnv) files₁ files :=
    .step .start hkeeps hset
  obtain ⟨files', hrestore, hrestored⟩ :=
    (restore_undoes_iff localEnv AppInfo (file_eq AppInfo) noBackups (Option.isSome_of_eq_some hfile)
      (accessible _) hbackup hsets).mpr nofun
  exact ⟨files₁, files, files', hbackup, hset, hrestore, hrestored⟩

open Sample in
/-- The same calls on `HMICapCache`: the file keeps what was set, and the backup stays. -/
theorem hmiCapCache_not_restored :
    NoBackups localEnv initial ∧ initial "/sdl/st/cap".toList = some "{}".toList ∧
      ((do
        let files ← HMICapCache.backup localEnv initial
        let files ← HMICapCache.set localEnv files (.table [])
        HMICapCache.restore localEnv files).map fun files : Files =>
          (files "/sdl/st/cap".toList, files (origin "/sdl/st/cap".toList))) =
        .ok (some "[]".toList, some "{}".toList) := by
  refine ⟨noBackups, ?_, ?_⟩
  · decide +kernel
  · decide +kernel

end Store

end SDL

end Atf
