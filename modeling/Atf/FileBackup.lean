import Atf.ConfigRestore

/-!
# Backing up and restoring one file (`utils_manager.cc`)

`FileBackup` and `FileRestore` copy a file whole, and what they return is the state of the two streams afterwards.
The destination is emptied when it is opened, before anything is known of the source, and a copy of nothing counts as
failed. So an empty file cannot be backed up, though its backup is correct; and a restore that has nothing to copy
empties the file, or with a file that cannot be written takes its backup away.
-/

namespace Atf
open Lua

namespace UtilsManager
variable {env : SdlEnv} {files : Files} {file_path file_name : Text}

def backupPath (file_path file_name : Text) : Text := joinPath file_path file_name ++ kBackupSuffix

theorem backupPath_ne : backupPath file_path file_name ≠ joinPath file_path file_name := SDL.origin_ne _

theorem joinPath_kBackupSuffix : joinPath file_path (file_name ++ kBackupSuffix) = backupPath file_path file_name :=
  SDL.joinPath_append ..

/-- What a stream on the file yields: nothing from a file that is missing or cannot be opened. -/
def streamed (env : SdlEnv) (files : Files) (path : Text) : Text := (env.read files path).getD []

theorem streamed_of_present {path content : Text} (h : files path = some content) :
    streamed env files path = if env.readable path then content else [] := by
  rw [streamed, SdlEnv.read, h]
  split <;> rfl

theorem toResult_eq_success {success : Bool} : toResult success = error_codes.SUCCESS ↔ success = true := by
  cases success with
  | false => decide
  | true => decide

theorem toResult_eq_failed {success : Bool} : toResult success = error_codes.FAILED ↔ success = false := by
  cases success with
  | false => decide
  | true => decide

/-! ### The two operations -/

theorem fileBackup_eq (env : SdlEnv) (files : Files) (file_path file_name : Text) :
    fileBackup env files file_path file_name =
      let src := streamed env files (joinPath file_path file_name)
      if env.creatable (backupPath file_path file_name) then
        (files.set (backupPath file_path file_name) src, toResult !src.isEmpty)
      else (files, error_codes.FAILED) := by
  unfold fileBackup copy backupPath
  dsimp only
  split
  · rfl
  · rfl

/-- The backup is removed if it can be, however the copy went. -/
theorem fileRestore_eq (env : SdlEnv) (files : Files) (file_path file_name : Text) :
    fileRestore env files file_path file_name =
      let path := joinPath file_path file_name
      let backup := backupPath file_path file_name
      let src := streamed env files backup
      let copied := if env.creatable path then files.set path src else files
      (if (files backup).isSome && env.removable backup then copied.erase backup else copied,
        toResult (env.creatable path && !src.isEmpty)) := by
  have hcopy : copy env files (backupPath file_path file_name) (joinPath file_path file_name) =
      (if env.creatable (joinPath file_path file_name) then
          files.set (joinPath file_path file_name) (streamed env files (backupPath file_path file_name)) else files,
        env.creatable (joinPath file_path file_name) &&
          !(streamed env files (backupPath file_path file_name)).isEmpty) := by
    unfold copy
    split
    · rename_i hcreatable
      rw [hcreatable]
      rfl
    · rename_i hcreatable
      rw [Bool.eq_false_iff.mpr hcreatable]
      rfl
  have hkeeps : ∀ content, (files.set (joinPath file_path file_name) content) (backupPath file_path file_name) =
      files (backupPath file_path file_name) := fun content => Table.set_of_ne _ _ backupPath_ne
  rw [fileRestore]
  dsimp only
  rw [show joinPath file_path file_name ++ kBackupSuffix = backupPath file_path file_name from rfl, hcopy, fileDelete,
    joinPath_kBackupSuffix]
  dsimp only
  split
  · rw [hkeeps]
    split
    · rfl
    · rfl
  · split
    · rfl
    · rfl

/-! ### From the backup to the restore -/

/-- A call on the file between its backup and its restore. -/
inductive Change
  | FileUpdate (file_content : Text) | FileDelete
deriving DecidableEq, Repr

def change (env : SdlEnv) (file_path file_name : Text) (files : Files) : Change → Files
  | .FileUpdate file_content => (fileUpdate env files file_path file_name file_content).1
  | .FileDelete => (fileDelete env files file_path file_name).1

/-- The files when the restore is called. -/
def changed (env : SdlEnv) (files : Files) (file_path file_name : Text) (changes : List Change) : Files :=
  changes.foldl (change env file_path file_name) (fileBackup env files file_path file_name).1

theorem change_frame (c : Change) {q : Text} (hq : q ≠ joinPath file_path file_name) :
    change env file_path file_name files c q = files q := by
  cases c with
  | FileUpdate file_content =>
    unfold change fileUpdate
    dsimp only
    split
    · exact Table.set_of_ne _ _ hq
    · rfl
  | FileDelete =>
    unfold change fileDelete
    dsimp only
    split
    · exact Table.erase_of_ne _ hq
    · rfl

theorem foldl_change_frame (changes : List Change) {q : Text} (hq : q ≠ joinPath file_path file_name) :
    changes.foldl (change env file_path file_name) files q = files q := by
  induction changes generalizing files with
  | nil => rfl
  | cons c changes ih => exact ih.trans (change_frame c hq)

/-- Both calls succeed, the file has its content at the backup, and the backup is gone. -/
structure Undoes (env : SdlEnv) (files : Files) (file_path file_name : Text) (changes : List Change) : Prop where
  backup : (fileBackup env files file_path file_name).2 = error_codes.SUCCESS
  restore : (fileRestore env (changed env files file_path file_name changes) file_path file_name).2 =
    error_codes.SUCCESS
  content : (fileRestore env (changed env files file_path file_name changes) file_path file_name).1
    (joinPath file_path file_name) = files (joinPath file_path file_name)
  gone : (fileRestore env (changed env files file_path file_name changes) file_path file_name).1
    (backupPath file_path file_name) = none

theorem fileBackup_success_iff : (fileBackup env files file_path file_name).2 = error_codes.SUCCESS ↔
    env.creatable (backupPath file_path file_name) = true ∧ streamed env files (joinPath file_path file_name) ≠ [] := by
  rw [fileBackup_eq]
  dsimp only
  split
  · rename_i hcreatable
    simp [toResult_eq_success, hcreatable]
  · rename_i hcreatable
    simp [hcreatable, error_codes.FAILED, error_codes.SUCCESS]

theorem fileRestore_success_iff : (fileRestore env files file_path file_name).2 = error_codes.SUCCESS ↔
    env.creatable (joinPath file_path file_name) = true ∧ streamed env files (backupPath file_path file_name) ≠ [] := by
  rw [fileRestore_eq, toResult_eq_success]
  simp

/-- The changes leave the backup with the content that the file had. -/
theorem changed_backupPath (files : Files) (changes : List Change)
    (hcreatable : env.creatable (backupPath file_path file_name) = true) :
    changed env files file_path file_name changes (backupPath file_path file_name) =
      some (streamed env files (joinPath file_path file_name)) := by
  rw [changed, foldl_change_frame changes backupPath_ne, fileBackup_eq]
  dsimp only
  rw [if_pos hcreatable]
  exact Table.set_self ..

/-- A restore from a backup that can be read and removed. -/
theorem fileRestore_of_saved {content : Text} (hsaved : files (backupPath file_path file_name) = some content)
    (hreadable : env.readable (backupPath file_path file_name) = true)
    (hpath : env.creatable (joinPath file_path file_name) = true)
    (hremovable : env.removable (backupPath file_path file_name) = true) :
    fileRestore env files file_path file_name =
      ((files.set (joinPath file_path file_name) content).erase (backupPath file_path file_name),
        toResult !content.isEmpty) := by
  have hsrc : streamed env files (backupPath file_path file_name) = content :=
    (streamed_of_present hsaved).trans (if_pos hreadable)
  rw [fileRestore_eq]
  dsimp only
  rw [hsrc, hsaved, hremovable, hpath]
  rfl

theorem streamed_ne_nil_iff {path content : Text} (h : files path = some content) :
    streamed env files path ≠ [] ↔ content ≠ [] ∧ env.readable path = true := by
  rw [streamed_of_present h]
  split
  · rename_i hreadable
    simp [hreadable]
  · rename_i hreadable
    simp [hreadable]

/-- However the file is changed in between, it is restored exactly if it is not empty, both it and the backup can be
read and written, and the backup can be removed. -/
theorem restore_undoes_changes_iff (env : SdlEnv) (files : Files) (file_path file_name : Text) (changes : List Change)
    {content : Text} (hfile : files (joinPath file_path file_name) = some content) :
    Undoes env files file_path file_name changes ↔
      content ≠ [] ∧ env.readable (joinPath file_path file_name) = true ∧
        env.creatable (joinPath file_path file_name) = true ∧
        env.readable (backupPath file_path file_name) = true ∧
        env.creatable (backupPath file_path file_name) = true ∧
        env.removable (backupPath file_path file_name) = true := by
  constructor
  · intro h
    obtain ⟨hcreatable, hsrc⟩ := fileBackup_success_iff.mp h.backup
    obtain ⟨hne, hreadable⟩ := (streamed_ne_nil_iff hfile).mp hsrc
    have hsaved := changed_backupPath files changes hcreatable
    obtain ⟨hpath, hsrc'⟩ := fileRestore_success_iff.mp h.restore
    obtain ⟨-, hreadable'⟩ := (streamed_ne_nil_iff hsaved).mp hsrc'
    refine ⟨hne, hreadable, hpath, hreadable', hcreatable, ?_⟩
    by_contra hremovable
    -- a backup that cannot be removed is still there
    have hgone := h.gone
    rw [fileRestore_eq] at hgone
    dsimp only at hgone
    rw [Bool.eq_false_iff.mpr hremovable, Bool.and_false, if_neg Bool.false_ne_true, if_pos hpath,
      Table.set_of_ne _ _ backupPath_ne, hsaved] at hgone
    cases hgone
  · rintro ⟨hne, hreadable, hpath, hreadable', hcreatable, hremovable⟩
    have hsrc : streamed env files (joinPath file_path file_name) = content :=
      (streamed_of_present hfile).trans (if_pos hreadable)
    have hsaved := changed_backupPath files changes hcreatable
    rw [hsrc] at hsaved
    have hresult := fileRestore_of_saved hsaved hreadable' hpath hremovable
    refine ⟨fileBackup_success_iff.mpr ⟨hcreatable, ?_⟩, ?_, ?_, ?_⟩
    · rw [hsrc]
      exact hne
    · rw [hresult, toResult_eq_success]
      simpa using hne
    · rw [hresult]
      dsimp only
      rw [Table.erase_of_ne _ backupPath_ne.symm, Table.set_self, hfile]
    · rw [hresult]
      exact Table.erase_self ..

namespace Sample

/-- A host on which every file can be read, written and removed. -/
def host : SdlEnv := { SDL.Store.Sample.localEnv with remote := true }

/-- The same, but the file itself cannot be read. -/
def writeOnlyHost : SdlEnv := { host with readable := fun path => decide (path ≠ "/sdl/ini".toList) }

/-- The same, but the file itself cannot be written. -/
def readOnlyHost : SdlEnv := { host with creatable := fun path => decide (path ≠ "/sdl/ini".toList) }

def withFile (content : Text) : Files := Table.empty.set "/sdl/ini".toList content

def withBackup : Files := (withFile "a=2".toList).set "/sdl/ini_origin".toList "a=1".toList

end Sample

open Sample in
/-- The file is written, deleted and written again. -/
theorem restore_undoes_changes_iff_rewritten :
    Undoes host (withFile "a=1".toList) "/sdl".toList "ini".toList
      [.FileUpdate "a=2".toList, .FileDelete, .FileUpdate []] := by
  have hfile : withFile "a=1".toList (joinPath "/sdl".toList "ini".toList) = some "a=1".toList := by decide +kernel
  exact (restore_undoes_changes_iff host _ _ _ _ hfile).mpr ⟨by decide, rfl, rfl, rfl, rfl, rfl⟩

open Sample in
/-- The backup and the restore of an empty file both return an error. -/
theorem empty_file_not_backed_up :
    (fileBackup host (withFile []) "/sdl".toList "ini".toList).2 = error_codes.FAILED ∧
      (fileRestore host (changed host (withFile []) "/sdl".toList "ini".toList []) "/sdl".toList "ini".toList).2 =
        error_codes.FAILED ∧
      ¬ Undoes host (withFile []) "/sdl".toList "ini".toList [] := by
  have hbackup : (fileBackup host (withFile []) "/sdl".toList "ini".toList).2 = error_codes.FAILED := by decide +kernel
  refine ⟨hbackup, by decide +kernel, fun h => ?_⟩
  have hsuccess := h.backup
  rw [hbackup] at hsuccess
  cases hsuccess

/-! ### A call that fails -/

/-- If the call returns an error, the file and its backup are as they were. -/
def FailsClean (files : Files) (file_path file_name : Text) (call : Files × Int) : Prop :=
  call.2 = error_codes.FAILED → call.1 (joinPath file_path file_name) = files (joinPath file_path file_name) ∧
    call.1 (backupPath file_path file_name) = files (backupPath file_path file_name)

/-- The backup cannot be written, the file can be read and has something to copy, or the backup is empty already. -/
def BackupSafe (env : SdlEnv) (files : Files) (file_path file_name : Text) : Prop :=
  env.creatable (backupPath file_path file_name) = false ∨ streamed env files (joinPath file_path file_name) ≠ [] ∨
    files (backupPath file_path file_name) = some []

/-- There is no backup that would be removed. -/
def NoneRemoved (env : SdlEnv) (files : Files) (file_path file_name : Text) : Prop :=
  files (backupPath file_path file_name) = none ∨ env.removable (backupPath file_path file_name) = false

/-- The file can be written, and its backup can be read and has something to copy; or no backup would be removed, and
the file is empty already or cannot be written. -/
def RestoreSafe (env : SdlEnv) (files : Files) (file_path file_name : Text) : Prop :=
  if env.creatable (joinPath file_path file_name) then
    streamed env files (backupPath file_path file_name) ≠ [] ∨
      files (joinPath file_path file_name) = some [] ∧ NoneRemoved env files file_path file_name
  else NoneRemoved env files file_path file_name

theorem failsClean_fileBackup_iff :
    FailsClean files file_path file_name (fileBackup env files file_path file_name) ↔
      BackupSafe env files file_path file_name := by
  unfold FailsClean BackupSafe
  rw [fileBackup_eq]
  dsimp only
  split
  · rename_i hcreatable
    by_cases hsrc : streamed env files (joinPath file_path file_name) = []
    · rw [hsrc, hcreatable]
      dsimp only
      rw [Table.set_of_ne _ _ backupPath_ne.symm, Table.set_self]
      simp [toResult_eq_failed, eq_comm (a := some [])]
    · simp [hsrc, toResult_eq_failed]
  · rename_i hcreatable
    simp [hcreatable]

/-- What a restore makes of its backup, whatever it copied. -/
theorem fileRestore_backup_iff :
    (fileRestore env files file_path file_name).1 (backupPath file_path file_name) =
      files (backupPath file_path file_name) ↔ NoneRemoved env files file_path file_name := by
  have hcopied : (if env.creatable (joinPath file_path file_name) then
      files.set (joinPath file_path file_name) (streamed env files (backupPath file_path file_name)) else files)
        (backupPath file_path file_name) = files (backupPath file_path file_name) := by
    split
    · exact Table.set_of_ne _ _ backupPath_ne
    · rfl
  unfold NoneRemoved
  rw [fileRestore_eq]
  dsimp only
  split
  · rename_i hremoved
    obtain ⟨hsome, hremovable⟩ := Bool.and_eq_true_iff.mp hremoved
    rw [Table.erase_self, hremovable]
    simp [eq_comm (a := none)]
  · rename_i hkept
    rw [hcopied]
    cases hbackup : files (backupPath file_path file_name) with
    | none => simp
    | some content =>
      rw [hbackup] at hkept
      simpa using hkept

/-- What it makes of the file. -/
theorem fileRestore_path : (fileRestore env files file_path file_name).1 (joinPath file_path file_name) =
    if env.creatable (joinPath file_path file_name) then some (streamed env files (backupPath file_path file_name))
    else files (joinPath file_path file_name) := by
  rw [fileRestore_eq]
  dsimp only
  split
  · rw [Table.erase_of_ne _ backupPath_ne.symm]
    split
    · exact Table.set_self ..
    · rfl
  · split
    · exact Table.set_self ..
    · rfl

theorem failsClean_fileRestore_iff :
    FailsClean files file_path file_name (fileRestore env files file_path file_name) ↔
      RestoreSafe env files file_path file_name := by
  have hresult : (fileRestore env files file_path file_name).2 =
      toResult (env.creatable (joinPath file_path file_name) &&
        !(streamed env files (backupPath file_path file_name)).isEmpty) := by
    rw [fileRestore_eq]
  unfold FailsClean RestoreSafe
  rw [fileRestore_backup_iff, fileRestore_path, hresult, toResult_eq_failed]
  split
  · rename_i hcreatable
    rw [hcreatable, Bool.true_and]
    by_cases hsrc : streamed env files (backupPath file_path file_name) = []
    · simp [hsrc, eq_comm (a := some [])]
    · simp [hsrc]
  · rename_i hcreatable
    simp [hcreatable]

/-- A call that returns an error leaves the file and its backup alone exactly in these states. -/
theorem failed_call_unchanged_iff (env : SdlEnv) (files : Files) (file_path file_name : Text) :
    (FailsClean files file_path file_name (fileBackup env files file_path file_name) ↔
        BackupSafe env files file_path file_name) ∧
      (FailsClean files file_path file_name (fileRestore env files file_path file_name) ↔
        RestoreSafe env files file_path file_name) :=
  ⟨failsClean_fileBackup_iff, failsClean_fileRestore_iff⟩

open Sample in
/-- Without a backup, the restore fails and empties the file; with a file that cannot be written, it fails and removes
the backup. With a file that cannot be read, the backup fails and empties the one there was. -/
theorem failed_restore_destroys :
    ((fileRestore host (withFile "a=1".toList) "/sdl".toList "ini".toList).2 = error_codes.FAILED ∧
      (fileRestore host (withFile "a=1".toList) "/sdl".toList "ini".toList).1 "/sdl/ini".toList = some []) ∧
    ((fileRestore readOnlyHost withBackup "/sdl".toList "ini".toList).2 = error_codes.FAILED ∧
      withBackup "/sdl/ini_origin".toList = some "a=1".toList ∧
      (fileRestore readOnlyHost withBackup "/sdl".toList "ini".toList).1 "/sdl/ini_origin".toList = none) ∧
    ((fileBackup writeOnlyHost withBackup "/sdl".toList "ini".toList).2 = error_codes.FAILED ∧
      (fileBackup writeOnlyHost withBackup "/sdl".toList "ini".toList).1 "/sdl/ini_origin".toList = some []) ∧
    ¬ FailsClean (withFile "a=1".toList) "/sdl".toList "ini".toList
      (fileRestore host (withFile "a=1".toList) "/sdl".toList "ini".toList) := by
  refine ⟨by decide +kernel, by decide +kernel, by decide +kernel, ?_⟩
  unfold FailsClean
  decide +kernel

end UtilsManager

end Atf
