import Atf.Lib.FileTree
import Atf.RemoteFiles

/-!
# Deleting a folder of the remote host (`utils_manager.cc`)

`FolderDelete` opens the folder, takes its entries one by one, deletes each of them and then the folder itself. An
entry is asked for by `stat`, which follows links, so a link to a folder is taken for a folder and its entries are
deleted. `unlink` and `rmdir` act on the entry itself and follow links on the way to it only.

The order in which `readdir` gives the entries is the system's (`Readdir`), and so is the number of links that are
followed on one path (`Process`). Every call is permitted, and memory does not run out.
-/

namespace Atf
open Lua FileTree

/-! ### Paths -/

/-- The name of an entry. -/
def IsName (s : Text) : Prop := s ≠ [] ∧ s ≠ ['.'] ∧ s ≠ ['.', '.'] ∧ '/' ∉ s ∧ '\x00' ∉ s

instance : DecidablePred IsName := fun _ => inferInstanceAs (Decidable (_ ∧ _))

abbrev Name := { s : Text // IsName s }

/-- The step for a part of a path between two slashes; there may be more than one slash. -/
def pathStep (s : Text) : Option (Step Name) :=
  if s = [] then none
  else if s = ['.'] then some .here
  else if s = ['.', '.'] then some .up
  else if h : IsName s then some (.into ⟨s, h⟩)
  else none

/-- No route belongs to the empty path. -/
def route (path : Text) : Option (Route Name) :=
  if path = [] then none else some ⟨path.head? = some '/', (path.splitOn '/').filterMap pathStep⟩

/-- `%s/%s` -/
def child (path : Text) (n : Name) : Text := path ++ '/' :: n.val

/-! ### System calls -/

/-- What a process has of its own. -/
structure Process where
  cwd : Place Name
  maxLinks : Nat

/-- The entries that `readdir` gives, in the order in which it gives them. -/
structure Readdir where
  list : (path : Text) → (names : List Name) → List (Step Name)
  perm : ∀ path names, (list path names).Perm (.here :: .up :: names.map .into)

namespace Process
variable (c : Process) (t : DirTree Name) (path : Text)

def resolve : Option (Nat × Place Name) :=
  match route path with
  | none => none
  | some r => t.walk c.maxLinks (r.start c.cwd) r.steps

def stat : Option (Kind Name) :=
  match c.resolve t path with
  | none => none
  | some (_, p) => t.kind p

def opendir : Option (Place Name) :=
  match c.resolve t path with
  | none => none
  | some (_, p) => if t.kind p = some .dir then some p else none

/-- The place of the entry that the last name of the path stands for, whether there is such an entry or not. -/
def entry : Option (Place Name) :=
  match route path with
  | none => none
  | some r =>
    match r.steps.getLast? with
    | some (.into n) =>
      match t.walk c.maxLinks (r.start c.cwd) r.steps.dropLast with
      | none => none
      | some (_, p) => if t.kind p = some .dir then some (n :: p) else none
    | _ => none

def unlink : DirTree Name × Int :=
  match c.entry t path with
  | none => (t, -1)
  | some p => if h : t.kind p ≠ none ∧ t.kind p ≠ some .dir then (t.removeFile p h.2, 0) else (t, -1)

def rmdir : DirTree Name × Int :=
  match c.entry t path with
  | none => (t, -1)
  | some p =>
    if h : p ≠ [] ∧ t.kind p = some .dir ∧ t.names p = [] then (t.remove p h.1 h.2.2, 0) else (t, -1)

end Process

/-! ### The server -/

namespace UtilsManager
variable (c : Process)

variable (delete : DirTree Name → (folder_path : Text) → Option (DirTree Name × Int))

/-- The deletion of an entry in the loop. -/
def deleteEntry (t : DirTree Name) (buf : Text) : Option (DirTree Name × Int) :=
  match c.stat t buf with
  | none => some (t, -1)
  | some .dir => delete t buf
  | some _ => some (c.unlink t buf)

/-- The loop over the entries, until one of them is not deleted. -/
def deleteEntries (folder_path : Text) : List (Step Name) → DirTree Name → Option (DirTree Name × Int)
  | [], t => some (t, 0)
  | .here :: ents, t => deleteEntries folder_path ents t
  | .up :: ents, t => deleteEntries folder_path ents t
  | .into n :: ents, t =>
    match deleteEntry c delete t (child folder_path n) with
    | none => none
    | some (t, res) => if res = 0 then deleteEntries folder_path ents t else some (t, res)

/-- `FolderDelete`, `none` without enough fuel for its calls of itself. -/
def folderDelete (readdir : Readdir) : (fuel : Nat) → DirTree Name → (folder_path : Text) → Option (DirTree Name × Int)
  | 0, _, _ => none
  | fuel + 1, t, folder_path =>
    match c.opendir t folder_path with
    | none => some (t, -1)
    | some p =>
      match deleteEntries c (folderDelete readdir fuel) folder_path (readdir.list folder_path (t.names p)) t with
      | none => none
      | some (t, res) => some (if res = 0 then c.rmdir t folder_path else (t, res))

/-- The handler of `folder_delete`. -/
def onFolderDelete (readdir : Readdir) (fuel : Nat) (t : DirTree Name) :
    List Parameter → Option (DirTree Name × Response)
  | [p₀] =>
    match getString p₀ with
    | some folder_path =>
      (folderDelete c readdir fuel t (cString folder_path).toList).map fun (t, res) =>
        (t, ([], if res = 0 then error_codes.SUCCESS else error_codes.FAILED))
    | none => some (t, (kBadTypeValue, error_codes.FAILED))
  | _ => some (t, (kIncorrNumberParams, error_codes.FAILED))

end UtilsManager

end Atf
