import Atf.FolderInside

/-!
# What `FolderDelete` deletes outside the folder

`readdir` may give the entries in an order that goes straight to an entry which can be deleted at once (`towards`).
Nothing else is deleted before it (`folderDelete_straight`), so the run stays inside the folder in every order exactly
if there is no such entry outside (`folderDelete_inside_iff`).
-/

namespace Atf
open Lua FileTree

/-- The first name is the one that leads on along `ns` from `start`; the depth of the path is in its slashes. -/
def towards (start : Text) (ns : List Name) : Readdir where
  list path names :=
    match ns[path.count '/' - start.count '/']? with
    | some m =>
      if m ∈ names then .into m :: .here :: .up :: (names.erase m).map .into else .here :: .up :: names.map .into
    | none => .here :: .up :: names.map .into
  perm path names := by
    split
    · rename_i m _
      split
      · rename_i hm
        have hfirst : (Step.into m :: .here :: .up :: (names.erase m).map .into).Perm
            (.here :: .up :: .into m :: (names.erase m).map .into) :=
          (List.Perm.swap ..).trans ((List.Perm.swap ..).cons _)
        exact hfirst.trans ((((List.perm_cons_erase hm).map Step.into).symm.cons _).cons _)
      · exact .refl _
    · exact .refl _

theorem count_descend (path : Text) (ns : List Name) :
    (descend path ns).count '/' = path.count '/' + ns.length := by
  induction ns using List.reverseRecOn with
  | nil => rfl
  | append_singleton ns n ih =>
    have hname : n.val.count '/' = 0 := List.count_eq_zero.mpr (slash_not_mem n)
    rw [descend_concat, child, List.count_append, List.count_cons_self, hname, ih, List.length_append]
    rfl

theorem towards_list (start : Text) (pre : List Name) (m : Name) (post : List Name) {names : List Name}
    (hm : m ∈ names) : (towards start (pre ++ m :: post)).list (descend start pre) names =
      .into m :: .here :: .up :: (names.erase m).map .into := by
  have hindex : (pre ++ m :: post)[(descend start pre).count '/' - start.count '/']? = some m := by
    rw [count_descend, Nat.add_sub_cancel_left, List.getElem?_append_right (le_refl _), Nat.sub_self]
    rfl
  show (match (pre ++ m :: post)[(descend start pre).count '/' - start.count '/']? with
    | some m =>
      if m ∈ names then Step.into m :: .here :: .up :: (names.erase m).map .into else .here :: .up :: names.map .into
    | none => .here :: .up :: names.map .into) = _
  rw [hindex]
  exact if_pos hm

namespace UtilsManager
variable {c : Process} {readdir : Readdir} {fuel : Nat} {path : Text} {t t' : DirTree Name} {res : Int} {n : Name}
  {p : Place Name}

/-- The entry that is given first is deleted first. -/
theorem folderDelete_first {ents : List (Step Name)} (hopen : c.opendir t path = some p)
    (hlist : readdir.list path (t.names p) = .into n :: ents)
    (h : folderDelete c readdir (fuel + 1) t path = some (t', res)) :
    ∃ t₁ res₁, deleteEntry c (folderDelete c readdir fuel) t (child path n) = some (t₁, res₁) ∧ t' ≤ t₁ := by
  unfold folderDelete at h
  rw [hopen] at h
  dsimp only at h
  rw [hlist] at h
  split at h
  · cases h
  · rename_i t₂ res₂ hents
    have hrun : t' ≤ t₂ := by
      have hlast := Option.some.inj h
      split at hlast
      · have hrmdir := c.rmdir_le t₂ path
        rwa [hlast] at hrmdir
      · cases hlast
        exact le_refl _
    unfold deleteEntries at hents
    split at hents
    · cases hents
    · rename_i t₁ res₁ hentry
      refine ⟨t₁, res₁, hentry, le_trans hrun ?_⟩
      split at hents
      · exact deleteEntries_le (fun _ _ _ _ => folderDelete_le) hents
      · cases hents
        exact le_refl _

theorem deleteEntries_dots {delete : DirTree Name → Text → Option (DirTree Name × Int)} {ents : List (Step Name)}
    (h : ∀ ent ∈ ents, ent = .here ∨ ent = .up) : deleteEntries c delete path ents t = some (t, 0) := by
  induction ents with
  | nil => rfl
  | cons ent ents ih =>
    obtain ⟨rfl | rfl, hents⟩ := List.forall_mem_cons.mp h
    · exact ih hents
    · exact ih hents

/-- Nothing is in the way of an empty folder. -/
theorem folderDelete_empty (hpath : path ≠ []) (hopen : c.opendir t path = some p)
    (hopenChild : c.opendir t (child path n) = some (n :: p)) (hnames : t.names (n :: p) = [])
    (h : folderDelete c readdir fuel t (child path n) = some (t', res)) : t'.kind (n :: p) = none := by
  cases fuel with
  | zero => cases h
  | succ fuel =>
    have hdir : t.kind (n :: p) = some .dir := by
      obtain ⟨_, -, hdir⟩ := Process.opendir_eq_some_iff.mp hopenChild
      exact hdir
    have hents : deleteEntries c (folderDelete c readdir fuel) (child path n)
        (readdir.list (child path n) (t.names (n :: p))) t = some (t, 0) := by
      have hperm := readdir.perm (child path n) (t.names (n :: p))
      rw [hnames] at hperm ⊢
      refine deleteEntries_dots fun ent hent => ?_
      simpa using hperm.mem_iff.mp hent
    have hentry : c.entry t (child path n) = some (n :: p) := by
      rw [Process.entry_child hpath, hopen]
      rfl
    unfold folderDelete at h
    rw [hopenChild] at h
    dsimp only at h
    rw [hents] at h
    have hrmdir : c.rmdir t (child path n) = (t', res) := Option.some.inj h
    rw [Process.rmdir, hentry] at hrmdir
    dsimp only at hrmdir
    rw [dif_pos ⟨List.cons_ne_nil n p, hdir, hnames⟩] at hrmdir
    cases hrmdir
    exact DirTree.kind_remove_self _ _

theorem Deletable.kind_ne_none (h : Deletable c t path n p) (hpath : path ≠ []) (hopen : c.opendir t path = some p) :
    t.kind (n :: p) ≠ none := by
  rcases h with ⟨k, hstat, -⟩ | ⟨hdir, -⟩
  · obtain ⟨p', hopen', hthere⟩ := Process.opendir_of_stat_child hpath hstat
    rw [hopen] at hopen'
    cases hopen'
    exact hthere
  · simp [hdir]

/-- An entry that can be deleted at once is deleted if it comes first. -/
theorem deleteEntry_deletable (hpath : path ≠ []) (hopen : c.opendir t path = some p) (hdel : Deletable c t path n p)
    (h : deleteEntry c (folderDelete c readdir fuel) t (child path n) = some (t', res)) :
    t'.kind (n :: p) = none := by
  have hentry : c.entry t (child path n) = some (n :: p) := by
    rw [Process.entry_child hpath, hopen]
    rfl
  obtain ⟨l, hresolve, hp⟩ := Process.opendir_eq_some_iff.mp hopen
  have hopenChild (hdir : t.kind (n :: p) = some .dir) : c.opendir t (child path n) = some (n :: p) := by
    have hname : t.Leads l p [.into n] l (n :: p) := .into hp hdir nofun (.nil _ _)
    have hchild : c.resolve t (child path n) = some (l, n :: p) :=
      (Process.resolve_child_iff hpath).mpr ⟨l, p, hresolve, hname⟩
    exact Process.opendir_eq_some_iff.mpr ⟨l, hchild, hdir⟩
  rcases hdel with ⟨k, hstat, hk⟩ | ⟨hdir, hnames⟩
  · have hdir : t.kind (n :: p) ≠ some .dir := by
      intro hdir
      rw [Process.stat_eq_dir_iff.mpr ⟨_, hopenChild hdir⟩] at hstat
      exact hk (Option.some.inj hstat).symm
    have hthere := Deletable.kind_ne_none (.inl ⟨k, hstat, hk⟩) hpath hopen
    rcases deleteEntry_cases h with ⟨hstat', -⟩ | ⟨hstat', -⟩ | ⟨k', -, -, hunlink⟩
    · rw [hstat] at hstat'
      cases hstat'
    · rw [hstat] at hstat'
      exact absurd (Option.some.inj hstat') hk
    · rw [Process.unlink, hentry] at hunlink
      dsimp only at hunlink
      rw [dif_pos ⟨hthere, hdir⟩] at hunlink
      cases hunlink
      exact DirTree.kind_remove_self _ _
  · unfold deleteEntry at h
    rw [Process.stat_eq_dir_iff.mpr ⟨_, hopenChild hdir⟩] at h
    exact folderDelete_empty hpath hopen (hopenChild hdir) hnames h

/-- On the way to an entry that can be deleted at once nothing is deleted, and then the entry is. -/
theorem folderDelete_straight (hpath : path ≠ []) {pre post : List Name}
    (hopen : c.opendir t (descend path (pre ++ post)) = some p)
    (hdel : Deletable c t (descend path (pre ++ post)) n p)
    (h : folderDelete c (towards path (pre ++ post ++ [n])) fuel t (descend path pre) = some (t', res)) :
    t'.kind (n :: p) = none := by
  induction post generalizing pre fuel t' res with
  | nil =>
    rw [List.append_nil] at hopen hdel h
    have hn : n ∈ t.names p := DirTree.mem_names.mpr (hdel.kind_ne_none (descend_ne_nil hpath pre) hopen)
    cases fuel with
    | zero => cases h
    | succ fuel =>
      obtain ⟨t₁, res₁, hentry, hle⟩ := folderDelete_first hopen (towards_list path pre n [] hn) h
      exact DirTree.kind_eq_none_of_le hle (deleteEntry_deletable (descend_ne_nil hpath pre) hopen hdel hentry)
  | cons m post ih =>
    have hnext : pre ++ m :: post = pre ++ [m] ++ post := by simp
    obtain ⟨q, hq⟩ : ∃ q, c.opendir t (descend path (pre ++ [m])) = some q := by
      rw [hnext, descend, List.foldl_append] at hopen
      exact opendir_of_descend (descend_ne_nil hpath _) hopen
    have hstat := Process.stat_eq_dir_iff.mpr ⟨q, hq⟩
    rw [descend_concat] at hstat
    obtain ⟨p', hopen', hthere⟩ := Process.opendir_of_stat_child (descend_ne_nil hpath pre) hstat
    cases fuel with
    | zero => cases h
    | succ fuel =>
      have hlist := towards_list path pre m (post ++ [n]) (DirTree.mem_names.mpr hthere)
      rw [← List.cons_append, ← List.append_assoc] at hlist
      obtain ⟨t₁, res₁, hentry, hle⟩ := folderDelete_first hopen' hlist h
      unfold deleteEntry at hentry
      rw [hstat, ← descend_concat] at hentry
      rw [hnext] at hopen hdel hentry
      exact DirTree.kind_eq_none_of_le hle (ih hopen hdel hentry)

/-- `FolderDelete` ends, reports the folder as deleted only if it is gone, and deletes nothing outside it in any order
of the entries exactly if no entry outside that can be deleted at once is reached. -/
theorem folderDelete_inside_iff (c : Process) (t : DirTree Name) (folder_path : Text) :
    (∀ readdir, ∃ fuel t' res, folderDelete c readdir fuel t folder_path = some (t', res) ∧
      (∀ p, Outside c t folder_path p → t'.kind p = t.kind p) ∧ (res = 0 → c.stat t' folder_path = none)) ↔
    ¬ ReachesOutside c t folder_path := by
  constructor
  · rintro h ⟨r, ns, p, n, hr, hopen, hdel, hout⟩
    have hpath : folder_path ≠ [] := by
      rintro rfl
      cases hr
    obtain ⟨fuel, t', res, hrun, hkept, -⟩ := h (towards folder_path (ns ++ [n]))
    rw [← List.nil_append ns] at hopen hdel hrun
    have hgone : t'.kind (n :: p) = none := folderDelete_straight hpath hopen hdel hrun
    have hsame : t'.kind (n :: p) = t.kind (n :: p) := by
      refine hkept _ fun r' hr' => ?_
      rw [hr] at hr'
      cases hr'
      exact hout
    rw [hgone] at hsame
    exact hdel.kind_ne_none (descend_ne_nil hpath _) hopen hsame.symm
  · intro hsafe readdir
    obtain ⟨fuel, t', res, hrun⟩ := folderDelete_total c readdir t folder_path
    refine ⟨fuel, t', res, hrun, (folderDelete_kept hsafe hrun).outside, ?_⟩
    rintro rfl
    exact folderDelete_gone hrun

def nameD : Name := ⟨['d'], by decide⟩
def nameL : Name := ⟨['l'], by decide⟩
def nameOut : Name := ⟨['o', 'u', 't'], by decide⟩
def nameF : Name := ⟨['f'], by decide⟩

/-- `/d` with a link `l` to `/out`, where there is a file `f`. -/
def linkedTree : DirTree Name where
  entries := ⟨[⟨[], .dir⟩, ⟨[nameD], .dir⟩, ⟨[nameL, nameD], .link ⟨true, [.into nameOut]⟩⟩, ⟨[nameOut], .dir⟩,
    ⟨[nameF, nameOut], .file⟩], by unfold List.NodupKeys; decide⟩
  root := rfl
  parent := by
    intro n p h
    have hkeys : n :: p ∈ [[], [nameD], [nameL, nameD], [nameOut], [nameF, nameOut]] := h
    simp only [List.mem_cons, List.not_mem_nil, or_false, List.cons.injEq] at hkeys
    rcases hkeys with h | ⟨-, rfl⟩ | ⟨-, rfl⟩ | ⟨-, rfl⟩ | ⟨-, rfl⟩
    · cases h
    all_goals rfl

/-- The file that a link leads to is deleted, and the folder is not. -/
theorem folderDelete_deletes_outside :
    ((folderDelete ⟨[], 40⟩ (towards [] []) 3 linkedTree "/d".toList).map fun r => (r.1.kind [nameF, nameOut], r.2)) =
      some (none, -1) ∧
    linkedTree.kind [nameF, nameOut] = some .file ∧ Outside ⟨[], 40⟩ linkedTree "/d".toList [nameF, nameOut] := by
  refine ⟨by decide +kernel, rfl, ?_⟩
  have hroot : Process.root ⟨[], 40⟩ linkedTree "/d".toList = some [nameD] := by decide +kernel
  intro r hr
  rw [hroot] at hr
  cases hr
  decide

end UtilsManager

end Atf
