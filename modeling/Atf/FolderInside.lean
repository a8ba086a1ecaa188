import Atf.FolderDelete

/-!
# What `FolderDelete` deletes

A run of `FolderDelete` only calls `unlink` and `rmdir`, on paths below the one it was called with
(`folderDelete_invariant`), and the tree shrinks. Each call of itself goes one folder deeper or through a link more, of
which there is a limited number, so it ends (`folderDelete_ends`).

What is found in the shrunken tree was there at the beginning, at the same place. So an entry outside the folder can
only be deleted if it could have been deleted first: it is a file or an empty folder, and there is a way to it through
links. In that case the entries may come in an order that goes straight to it.
-/

namespace Atf
open Lua FileTree

/-! ### Paths -/

theorem pathStep_name (n : Name) : pathStep n.val = some (.into n) := by
  obtain ⟨s, hs⟩ := n
  rw [pathStep, if_neg hs.1, if_neg hs.2.1, if_neg hs.2.2.1, dif_pos hs]

theorem slash_not_mem (n : Name) : '/' ∉ n.val := n.property.2.2.2.1

theorem child_ne_nil (path : Text) (n : Name) : child path n ≠ [] := by
  simp [child]

theorem route_child {path : Text} (hpath : path ≠ []) (n : Name) :
    ∃ r, route path = some r ∧ route (child path n) = some ⟨r.absolute, r.steps ++ [.into n]⟩ := by
  have hhead : (child path n).head? = path.head? := by
    rcases path with _ | ⟨a, path⟩
    · exact absurd rfl hpath
    · rfl
  have hsteps : ((child path n).splitOn '/').filterMap pathStep =
      (path.splitOn '/').filterMap pathStep ++ [.into n] := by
    rw [child, List.splitOn_append_cons_self, List.splitOn_eq_singleton (slash_not_mem n), List.filterMap_append]
    simp [pathStep_name]
  refine ⟨_, if_neg hpath, ?_⟩
  rw [route, if_neg (child_ne_nil path n), hhead, hsteps]

namespace Process
variable {c : Process} {t t' : DirTree Name} {path : Text} {n : Name} {l l' : Nat} {p q : Place Name}

theorem resolve_eq_some_iff : c.resolve t path = some (l, p) ↔
    ∃ r, route path = some r ∧ t.Leads c.maxLinks (r.start c.cwd) r.steps l p := by
  unfold resolve
  cases route path with
  | none => simp
  | some r => simp [DirTree.walk_eq_some_iff]

theorem resolve_mono (hle : t' ≤ t) (h : c.resolve t' path = some (l, p)) : c.resolve t path = some (l, p) := by
  obtain ⟨r, hr, hleads⟩ := resolve_eq_some_iff.mp h
  exact resolve_eq_some_iff.mpr ⟨r, hr, hleads.mono hle⟩

theorem resolve_child_iff (hpath : path ≠ []) : c.resolve t (child path n) = some (l', q) ↔
    ∃ l p, c.resolve t path = some (l, p) ∧ t.Leads l p [.into n] l' q := by
  obtain ⟨r, hr, hchild⟩ := route_child hpath n
  constructor
  · intro h
    obtain ⟨r', hr', hleads⟩ := resolve_eq_some_iff.mp h
    rw [hchild] at hr'
    cases hr'
    obtain ⟨l, p, hparent, hname⟩ := hleads.split
    exact ⟨l, p, resolve_eq_some_iff.mpr ⟨r, hr, hparent⟩, hname⟩
  · rintro ⟨l, p, h, hname⟩
    obtain ⟨r', hr', hparent⟩ := resolve_eq_some_iff.mp h
    rw [hr] at hr'
    cases hr'
    exact resolve_eq_some_iff.mpr ⟨_, hchild, hparent.append hname⟩

theorem opendir_eq_some_iff : c.opendir t path = some p ↔
    ∃ l, c.resolve t path = some (l, p) ∧ t.kind p = some .dir := by
  unfold opendir
  rcases c.resolve t path with _ | ⟨l, q⟩
  · simp
  · by_cases hq : t.kind q = some .dir
    · simp only [hq, if_true, Option.some.injEq, Prod.mk.injEq]
      constructor
      · rintro rfl
        exact ⟨l, ⟨rfl, rfl⟩, hq⟩
      · rintro ⟨_, ⟨-, rfl⟩, -⟩
        rfl
    · simp only [hq, if_false, Option.some.injEq, Prod.mk.injEq]
      constructor
      · intro h
        cases h
      · rintro ⟨_, ⟨-, rfl⟩, h⟩
        exact absurd h hq

theorem stat_eq_some_iff {k : Kind Name} : c.stat t path = some k ↔
    ∃ l p, c.resolve t path = some (l, p) ∧ t.kind p = some k := by
  unfold stat
  rcases c.resolve t path with _ | ⟨l, q⟩
  · simp
  · constructor
    · intro h
      exact ⟨l, q, rfl, h⟩
    · rintro ⟨_, _, heq, h⟩
      cases heq
      exact h

theorem opendir_mono (hle : t' ≤ t) (h : c.opendir t' path = some p) : c.opendir t path = some p := by
  obtain ⟨l, hresolve, hp⟩ := opendir_eq_some_iff.mp h
  exact opendir_eq_some_iff.mpr ⟨l, resolve_mono hle hresolve, DirTree.kind_mono hle hp⟩

theorem stat_mono (hle : t' ≤ t) {k : Kind Name} (h : c.stat t' path = some k) : c.stat t path = some k := by
  obtain ⟨l, p, hresolve, hp⟩ := stat_eq_some_iff.mp h
  exact stat_eq_some_iff.mpr ⟨l, p, resolve_mono hle hresolve, DirTree.kind_mono hle hp⟩

theorem stat_eq_dir_iff : c.stat t path = some .dir ↔ ∃ p, c.opendir t path = some p := by
  constructor
  · intro h
    obtain ⟨l, p, hresolve, hp⟩ := stat_eq_some_iff.mp h
    exact ⟨p, opendir_eq_some_iff.mpr ⟨l, hresolve, hp⟩⟩
  · rintro ⟨p, h⟩
    obtain ⟨l, hresolve, hp⟩ := opendir_eq_some_iff.mp h
    exact stat_eq_some_iff.mpr ⟨l, p, hresolve, hp⟩

theorem opendir_nil : c.opendir t [] = none := rfl

/-- What is found below a path is an entry of the folder at the path. -/
theorem opendir_of_stat_child (hpath : path ≠ []) {k : Kind Name} (h : c.stat t (child path n) = some k) :
    ∃ p, c.opendir t path = some p ∧ t.kind (n :: p) ≠ none := by
  obtain ⟨l', q, hresolve, -⟩ := stat_eq_some_iff.mp h
  obtain ⟨l, p, hparent, hname⟩ := (resolve_child_iff hpath).mp hresolve
  obtain ⟨hp, hn, -⟩ := hname.into_cases
  exact ⟨p, opendir_eq_some_iff.mpr ⟨l, hparent, hp⟩, hn⟩

/-- The entry of a path below is an entry of the folder. -/
theorem entry_child (hpath : path ≠ []) : c.entry t (child path n) = (c.opendir t path).map (n :: ·) := by
  obtain ⟨r, hr, hchild⟩ := route_child hpath n
  have hwalk : c.resolve t path = t.walk c.maxLinks (r.start c.cwd) r.steps := by
    rw [resolve, hr]
  have hstart : (Route.start ⟨r.absolute, r.steps ++ [.into n]⟩ c.cwd) = r.start c.cwd := rfl
  unfold entry opendir
  rw [hchild, hwalk]
  simp only [List.getLast?_concat, List.dropLast_concat, hstart]
  rcases t.walk c.maxLinks (r.start c.cwd) r.steps with _ | ⟨l, p⟩
  · rfl
  · dsimp only
    split <;> rfl

theorem entry_eq_some_iff : c.entry t path = some p ↔ ∃ r init n l q, route path = some r ∧
    r.steps = init ++ [.into n] ∧ t.Leads c.maxLinks (r.start c.cwd) init l q ∧ t.kind q = some .dir ∧ p = n :: q := by
  constructor
  · intro h
    unfold entry at h
    split at h
    · cases h
    · rename_i r hr
      split at h
      · rename_i n hlast
        split at h
        · cases h
        · rename_i l q hwalk
          split at h
          · rename_i hq
            obtain ⟨init, hinit⟩ := List.getLast?_eq_some_iff.mp hlast
            rw [hinit, List.dropLast_concat] at hwalk
            exact ⟨r, init, n, l, q, hr, hinit, DirTree.walk_eq_some_iff.mp hwalk, hq, (Option.some.inj h).symm⟩
          · cases h
      · cases h
  · rintro ⟨r, init, n, l, q, hr, hinit, hleads, hq, rfl⟩
    unfold entry
    rw [hr]
    simp only [hinit, List.getLast?_concat, List.dropLast_concat, hleads.walk_eq, hq, if_true]

theorem entry_mono (hle : t' ≤ t) (h : c.entry t' path = some p) : c.entry t path = some p := by
  obtain ⟨r, init, n, l, q, hr, hinit, hleads, hq, rfl⟩ := entry_eq_some_iff.mp h
  exact entry_eq_some_iff.mpr ⟨r, init, n, l, q, hr, hinit, hleads.mono hle, DirTree.kind_mono hle hq, rfl⟩

/-- A path that leads somewhere has an entry there, unless it does not end in a name. -/
theorem entry_of_resolve (hresolve : c.resolve t path = some (l, q)) :
    (∃ p, c.entry t path = some p ∧ t.kind p ≠ none) ∨ ∀ t', c.entry t' path = none := by
  obtain ⟨r, hr, hleads⟩ := resolve_eq_some_iff.mp hresolve
  by_cases hname : ∃ init n, r.steps = init ++ [.into n]
  · obtain ⟨init, n, hinit⟩ := hname
    rw [hinit] at hleads
    obtain ⟨l₁, p, hparent, hlast⟩ := hleads.split
    obtain ⟨hp, hn, -⟩ := hlast.into_cases
    exact .inl ⟨n :: p, entry_eq_some_iff.mpr ⟨r, init, n, l₁, p, hr, hinit, hparent, hp, rfl⟩, hn⟩
  · refine .inr fun t' => ?_
    by_contra h
    obtain ⟨p, h⟩ := Option.ne_none_iff_exists'.mp h
    obtain ⟨r', init, n, _, _, hr', hinit, -⟩ := entry_eq_some_iff.mp h
    rw [hr] at hr'
    cases hr'
    exact hname ⟨init, n, hinit⟩

/-! ### The folder at a path -/

/-- The root of the tree that the path stands for. A link at its end is not followed. -/
def root (c : Process) (t : DirTree Name) (path : Text) : Option (Place Name) :=
  match c.entry t path with
  | some p => some p
  | none => (c.resolve t path).map Prod.snd

theorem root_of_opendir (h : c.opendir t path = some q) : ∃ p, c.root t path = some p ∧ t.kind p ≠ none := by
  obtain ⟨l, hresolve, hq⟩ := opendir_eq_some_iff.mp h
  rcases entry_of_resolve hresolve with ⟨p, hentry, hp⟩ | hnone
  · refine ⟨p, ?_, hp⟩
    rw [root, hentry]
  · refine ⟨q, ?_, by simp [hq]⟩
    rw [root, hnone, hresolve]
    rfl

theorem root_mono (hle : t' ≤ t) (h : c.root t' path = some p) : c.root t path = some p := by
  unfold root at h
  split at h
  · rename_i hentry
    rw [root, entry_mono hle hentry, h]
  · rename_i hentry
    obtain ⟨⟨l, q⟩, hresolve, rfl⟩ := Option.map_eq_some_iff.mp h
    rcases entry_of_resolve hresolve with ⟨_, hsome, -⟩ | hnone
    · rw [hentry] at hsome
      cases hsome
    · rw [root, hnone, resolve_mono hle hresolve]
      rfl

theorem unlink_cases (c : Process) (t : DirTree Name) (path : Text) : c.unlink t path = (t, -1) ∨
    ∃ p hroot hnames, c.entry t path = some p ∧ c.unlink t path = (t.remove p hroot hnames, 0) := by
  unfold unlink
  cases hentry : c.entry t path with
  | none => exact .inl rfl
  | some p =>
    dsimp only
    split
    · rename_i h
      exact .inr ⟨p, DirTree.ne_nil_of_kind h.2, DirTree.names_eq_nil h.2, rfl, rfl⟩
    · exact .inl rfl

theorem rmdir_cases (c : Process) (t : DirTree Name) (path : Text) : c.rmdir t path = (t, -1) ∨
    ∃ p hroot hnames, c.entry t path = some p ∧ t.kind p = some .dir ∧
      c.rmdir t path = (t.remove p hroot hnames, 0) := by
  unfold rmdir
  cases hentry : c.entry t path with
  | none => exact .inl rfl
  | some p =>
    dsimp only
    split
    · rename_i h
      exact .inr ⟨p, h.1, h.2.2, rfl, h.2.1, rfl⟩
    · exact .inl rfl

theorem unlink_le (c : Process) (t : DirTree Name) (path : Text) : (c.unlink t path).1 ≤ t := by
  rcases c.unlink_cases t path with h | ⟨p, hroot, hnames, -, h⟩
  · rw [h]
  · rw [h]
    exact DirTree.remove_le hroot hnames

theorem rmdir_le (c : Process) (t : DirTree Name) (path : Text) : (c.rmdir t path).1 ≤ t := by
  rcases c.rmdir_cases t path with h | ⟨p, hroot, hnames, -, -, h⟩
  · rw [h]
  · rw [h]
    exact DirTree.remove_le hroot hnames

/-- The folder is gone if its entry is removed. -/
theorem stat_rmdir (h : (c.rmdir t path).2 = 0) : c.stat (c.rmdir t path).1 path = none := by
  have hle := c.rmdir_le t path
  rcases c.rmdir_cases t path with hrmdir | ⟨p, hroot, hnames, hentry, -, hrmdir⟩
  · rw [hrmdir] at h
    cases h
  · rw [hrmdir] at hle ⊢
    by_contra hstat
    obtain ⟨k, hk⟩ := Option.ne_none_iff_exists'.mp hstat
    obtain ⟨l, q, hresolve, -⟩ := stat_eq_some_iff.mp hk
    rcases entry_of_resolve hresolve with ⟨p', hentry', hp'⟩ | hnone
    · have hsame := entry_mono hle hentry'
      rw [hentry] at hsame
      cases hsame
      exact hp' (DirTree.kind_remove_self hroot hnames)
    · rw [hnone] at hentry
      cases hentry

end Process

/-! ### Runs -/

/-- The path of an entry some folders further down. -/
def descend (path : Text) (ns : List Name) : Text := ns.foldl child path

theorem descend_concat (path : Text) (ns : List Name) (n : Name) :
    descend path (ns ++ [n]) = child (descend path ns) n := by
  rw [descend, List.foldl_append]
  rfl

theorem descend_ne_nil {path : Text} (hpath : path ≠ []) (ns : List Name) : descend path ns ≠ [] := by
  induction ns using List.reverseRecOn with
  | nil => exact hpath
  | append_singleton ns n _ =>
    rw [descend_concat]
    exact child_ne_nil _ n

namespace UtilsManager
variable {c : Process} {readdir : Readdir} {fuel : Nat} {path : Text} {t t' : DirTree Name} {res : Int}

variable {delete : DirTree Name → Text → Option (DirTree Name × Int)} {ents : List (Step Name)}

theorem deleteEntry_cases {buf : Text} (h : deleteEntry c delete t buf = some (t', res)) :
    c.stat t buf = none ∧ t' = t ∨ c.stat t buf = some .dir ∧ delete t buf = some (t', res) ∨
    ∃ k, c.stat t buf = some k ∧ k ≠ .dir ∧ c.unlink t buf = (t', res) := by
  unfold deleteEntry at h
  split at h
  · rename_i hstat
    cases h
    exact .inl ⟨hstat, rfl⟩
  · rename_i hstat
    exact .inr (.inl ⟨hstat, h⟩)
  · rename_i k hdir hstat
    exact .inr (.inr ⟨k, hstat, hdir, Option.some.inj h⟩)

theorem deleteEntries_invariant {I : DirTree Name → Prop}
    (hentry : ∀ t n t' res, I t → deleteEntry c delete t (child path n) = some (t', res) → I t') (ht : I t)
    (h : deleteEntries c delete path ents t = some (t', res)) : I t' := by
  induction ents generalizing t with
  | nil =>
    cases h
    exact ht
  | cons ent ents ih =>
    rcases ent with _ | _ | n
    · exact ih ht h
    · exact ih ht h
    · unfold deleteEntries at h
      split at h
      · cases h
      · rename_i t₁ res₁ hresult
        have ht₁ := hentry t n t₁ res₁ ht hresult
        split at h
        · exact ih ht₁ h
        · cases h
          exact ht₁

/-- A property of trees that the system calls of a run keep is kept by the run. -/
theorem folderDelete_invariant {I : DirTree Name → Prop}
    (hunlink : ∀ t ns n k, I t → c.stat t (child (descend path ns) n) = some k → k ≠ .dir →
      I (c.unlink t (child (descend path ns) n)).1)
    (hrmdir : ∀ t ns, I t → I (c.rmdir t (descend path ns)).1) (ns : List Name) (ht : I t)
    (h : folderDelete c readdir fuel t (descend path ns) = some (t', res)) : I t' := by
  induction fuel generalizing ns t t' res with
  | zero => cases h
  | succ fuel ih =>
    have hentry : ∀ t n t' res, I t →
        deleteEntry c (folderDelete c readdir fuel) t (child (descend path ns) n) = some (t', res) → I t' := by
      intro t n t' res ht h
      rcases deleteEntry_cases h with ⟨-, rfl⟩ | ⟨-, h⟩ | ⟨k, hstat, hk, h⟩
      · exact ht
      · rw [← descend_concat] at h
        exact ih (ns ++ [n]) ht h
      · have hkept := hunlink t ns n k ht hstat hk
        rwa [h] at hkept
    unfold folderDelete at h
    split at h
    · cases h
      exact ht
    · split at h
      · cases h
      · rename_i t₁ res₁ hents
        have ht₁ := deleteEntries_invariant hentry ht hents
        split at h
        · have hrun := Option.some.inj h
          rw [← (Prod.mk.inj hrun).1]
          exact hrmdir t₁ ns ht₁
        · cases h
          exact ht₁

theorem folderDelete_le (h : folderDelete c readdir fuel t path = some (t', res)) : t' ≤ t := by
  refine folderDelete_invariant (I := (· ≤ t)) ?_ ?_ [] (le_refl t) h
  · intro t₁ ns n k hle _ _
    exact le_trans (c.unlink_le t₁ _) hle
  · intro t₁ ns hle
    exact le_trans (c.rmdir_le t₁ _) hle

theorem deleteEntries_le (hle : ∀ t path t' res, delete t path = some (t', res) → t' ≤ t)
    (h : deleteEntries c delete path ents t = some (t', res)) : t' ≤ t := by
  refine deleteEntries_invariant (I := (· ≤ t)) ?_ (le_refl t) h
  intro t₁ n t₂ res hle₁ h
  rcases deleteEntry_cases h with ⟨-, rfl⟩ | ⟨-, h⟩ | ⟨k, -, -, h⟩
  · exact hle₁
  · exact le_trans (hle _ _ _ _ h) hle₁
  · have hunlink := c.unlink_le t₁ (child path n)
    rw [h] at hunlink
    exact le_trans hunlink hle₁

theorem folderDelete_gone (h : folderDelete c readdir fuel t path = some (t', 0)) : c.stat t' path = none := by
  cases fuel with
  | zero => cases h
  | succ fuel =>
    unfold folderDelete at h
    split at h
    · cases h
    · split at h
      · cases h
      · rename_i t₁ res hents
        split at h
        · have hrmdir := Option.some.inj h
          have hstat : c.stat (c.rmdir t₁ path).1 path = none := Process.stat_rmdir (congrArg Prod.snd hrmdir)
          rwa [hrmdir] at hstat
        · rename_i hres
          exact absurd (Prod.mk.inj (Option.some.inj h)).2 hres

/-- The handler answers with success only if the folder is gone. -/
theorem onFolderDelete_success {parameters : List Parameter} {response : Response}
    (h : onFolderDelete c readdir fuel t parameters = some (t', response))
    (hcode : response.2 = error_codes.SUCCESS) :
    ∃ p₀ folder_path, parameters = [p₀] ∧ getString p₀ = some folder_path ∧
      c.stat t' (cString folder_path).toList = none := by
  have hfailed : error_codes.FAILED ≠ error_codes.SUCCESS := by decide
  unfold onFolderDelete at h
  split at h
  · rename_i p₀
    split at h
    · rename_i folder_path hstring
      obtain ⟨⟨t₁, res⟩, hrun, hresponse⟩ := Option.map_eq_some_iff.mp h
      cases hresponse
      by_cases hres : res = 0
      · rw [hres] at hrun
        exact ⟨p₀, folder_path, rfl, hstring, folderDelete_gone hrun⟩
      · dsimp only at hcode
        rw [if_neg hres] at hcode
        exact absurd hcode hfailed
    · cases h
      exact absurd hcode hfailed
  · cases h
    exact absurd hcode hfailed

/-! ### The end of a run -/

/-- The loop ends if the deletion of each folder ends. -/
theorem deleteEntries_ends (hle : ∀ t path t' res, delete t path = some (t', res) → t' ≤ t) (t₀ : DirTree Name)
    (hdelete : ∀ t n, t ≤ t₀ → c.stat t (child path n) = some .dir → ∃ r, delete t (child path n) = some r)
    (ht : t ≤ t₀) : ∃ r, deleteEntries c delete path ents t = some r := by
  induction ents generalizing t with
  | nil => exact ⟨_, rfl⟩
  | cons ent ents ih =>
    rcases ent with _ | _ | n
    · exact ih ht
    · exact ih ht
    · have hresult : ∃ t₁ res₁, t₁ ≤ t ∧ deleteEntry c delete t (child path n) = some (t₁, res₁) := by
        unfold deleteEntry
        split
        · exact ⟨t, -1, le_refl t, rfl⟩
        · rename_i hstat
          obtain ⟨⟨t₁, res₁⟩, hr⟩ := hdelete t n ht hstat
          exact ⟨t₁, res₁, hle _ _ _ _ hr, hr⟩
        · exact ⟨_, _, c.unlink_le t _, rfl⟩
      obtain ⟨t₁, res₁, hle₁, hresult⟩ := hresult
      unfold deleteEntries
      rw [hresult]
      dsimp only
      split
      · exact ih (le_trans hle₁ ht)
      · exact ⟨_, rfl⟩

/-- Enough fuel for a folder at depth `p.length` in a tree of depth `d`, with `l` links left to follow. -/
theorem folderDelete_ends {d : Nat} (hd : ∀ p, t.kind p ≠ none → p.length ≤ d) (hpath : path ≠ []) {l : Nat}
    {p : Place Name} (hresolve : c.resolve t path = some (l, p)) (hfuel : l * (d + 1) + (d - p.length) < fuel) :
    ∃ r, folderDelete c readdir fuel t path = some r := by
  induction fuel generalizing t path l p with
  | zero => exact absurd hfuel (Nat.not_lt_zero _)
  | succ fuel ih =>
    unfold folderDelete
    split
    · exact ⟨_, rfl⟩
    · rename_i p' hopen
      have hents : ∃ r,
          deleteEntries c (folderDelete c readdir fuel) path (readdir.list path (t.names p')) t = some r := by
        refine deleteEntries_ends (fun _ _ _ _ => folderDelete_le) t ?_ (le_refl t)
        intro t₁ n hle hstat
        have hd₁ : ∀ q, t₁.kind q ≠ none → q.length ≤ d := by
          intro q hq
          exact hd q fun hnone => hq (DirTree.kind_eq_none_of_le hle hnone)
        obtain ⟨l', q, hchild, hq⟩ := Process.stat_eq_some_iff.mp hstat
        obtain ⟨l₁, p₁, hparent, hname⟩ := (Process.resolve_child_iff hpath).mp hchild
        have hsame := Process.resolve_mono hle hparent
        rw [hresolve] at hsame
        cases hsame
        refine ih hd₁ (child_ne_nil path n) hchild ?_
        obtain ⟨-, -, ⟨rfl, rfl⟩ | hlinks⟩ := hname.into_cases
        · have hdepth : (n :: p).length ≤ d := hd₁ _ (by simp [hq])
          rw [List.length_cons] at hdepth ⊢
          omega
        · have hmul : (l' + 1) * (d + 1) ≤ l * (d + 1) := Nat.mul_le_mul_right _ hlinks
          rw [Nat.add_mul] at hmul
          omega
      obtain ⟨⟨t₁, res₁⟩, hents⟩ := hents
      rw [hents]
      exact ⟨_, rfl⟩

theorem exists_depth (t : DirTree Name) : ∃ d, ∀ p, t.kind p ≠ none → p.length ≤ d := by
  refine ⟨(t.entries.keys.map List.length).max?.getD 0, fun p hp => ?_⟩
  have hmem : p ∈ t.entries := not_not.mp fun h => hp (AList.lookup_eq_none.mpr h)
  exact List.le_max?_getD_of_mem (List.mem_map_of_mem (AList.mem_keys.mp hmem))

theorem folderDelete_total (c : Process) (readdir : Readdir) (t : DirTree Name) (path : Text) :
    ∃ fuel t' res, folderDelete c readdir fuel t path = some (t', res) := by
  cases hopen : c.opendir t path with
  | none =>
    refine ⟨1, t, -1, ?_⟩
    rw [folderDelete, hopen]
  | some p =>
    obtain ⟨l, hresolve, -⟩ := Process.opendir_eq_some_iff.mp hopen
    obtain ⟨d, hd⟩ := exists_depth t
    have hpath : path ≠ [] := by
      rintro rfl
      cases hopen
    have hends : ∃ r, folderDelete c readdir (l * (d + 1) + (d - p.length) + 1) t path = some r :=
      folderDelete_ends hd hpath hresolve (Nat.lt_succ_self _)
    obtain ⟨⟨t', res⟩, hrun⟩ := hends
    exact ⟨_, t', res, hrun⟩

/-! ### Inside the folder -/

/-- The place is not in the tree at the path. -/
def Outside (c : Process) (t : DirTree Name) (path : Text) (p : Place Name) : Prop :=
  ∀ r, c.root t path = some r → ¬ r <:+ p

/-- The entry `n` of the folder at `p` can be deleted at once: it is no folder, or an empty one. -/
def Deletable (c : Process) (t : DirTree Name) (path : Text) (n : Name) (p : Place Name) : Prop :=
  (∃ k, c.stat t (child path n) = some k ∧ k ≠ .dir) ∨ (t.kind (n :: p) = some .dir ∧ t.names (n :: p) = [])

/-- Folders and links to folders lead from the path to a folder with an entry outside that can be deleted at once. -/
def ReachesOutside (c : Process) (t : DirTree Name) (path : Text) : Prop :=
  ∃ r ns p n, c.root t path = some r ∧ c.opendir t (descend path ns) = some p ∧
    Deletable c t (descend path ns) n p ∧ ¬ r <:+ n :: p

theorem opendir_of_descend (hpath : path ≠ []) {ns : List Name} {q : Place Name}
    (h : c.opendir t (descend path ns) = some q) : ∃ p, c.opendir t path = some p := by
  induction ns using List.reverseRecOn generalizing q with
  | nil => exact ⟨q, h⟩
  | append_singleton ns n ih =>
    rw [descend_concat] at h
    have hstat := Process.stat_eq_dir_iff.mpr ⟨q, h⟩
    obtain ⟨p, hopen, -⟩ := Process.opendir_of_stat_child (descend_ne_nil hpath ns) hstat
    exact ih hopen

/-- The first entry outside that is deleted was there to be deleted at the beginning. -/
theorem not_outside_of_deletable (hsafe : ¬ ReachesOutside c t path) (hpath : path ≠ []) {ns : List Name}
    {p : Place Name} {n : Name} (hopen : c.opendir t (descend path ns) = some p)
    (hdel : Deletable c t (descend path ns) n p) : ¬ Outside c t path (n :: p) := by
  intro hout
  obtain ⟨q, hq⟩ := opendir_of_descend hpath hopen
  obtain ⟨r, hr, -⟩ := Process.root_of_opendir hq
  exact hsafe ⟨r, ns, p, n, hr, hopen, hdel, hout r hr⟩

/-- The tree that is left, as long as nothing outside is gone. -/
structure Kept (c : Process) (t₀ : DirTree Name) (path : Text) (t : DirTree Name) : Prop where
  le : t ≤ t₀
  outside : ∀ p, Outside c t₀ path p → t.kind p = t₀.kind p

theorem Kept.remove {t₀ : DirTree Name} (h : Kept c t₀ path t) {p : Place Name} (hroot : p ≠ [])
    (hnames : t.names p = []) (hp : ¬ Outside c t₀ path p) : Kept c t₀ path (t.remove p hroot hnames) where
  le := le_trans (DirTree.remove_le hroot hnames) h.le
  outside := by
    intro q hq
    have hne : q ≠ p := by
      rintro rfl
      exact hp hq
    rw [DirTree.kind_remove_of_ne hroot hnames hne, h.outside q hq]

theorem Kept.unlink {t₀ : DirTree Name} (hsafe : ¬ ReachesOutside c t₀ path) (hpath : path ≠ []) (h : Kept c t₀ path t)
    {ns : List Name} {n : Name} {k : Kind Name} (hstat : c.stat t (child (descend path ns) n) = some k)
    (hk : k ≠ .dir) : Kept c t₀ path (c.unlink t (child (descend path ns) n)).1 := by
  rcases c.unlink_cases t (child (descend path ns) n) with hunlink | ⟨e, hroot, hnames, hentry, hunlink⟩
  · rw [hunlink]
    exact h
  · rw [hunlink]
    refine h.remove hroot hnames ?_
    rw [Process.entry_child (descend_ne_nil hpath ns)] at hentry
    obtain ⟨p, hopen, rfl⟩ := Option.map_eq_some_iff.mp hentry
    exact not_outside_of_deletable hsafe hpath (Process.opendir_mono h.le hopen)
      (.inl ⟨k, Process.stat_mono h.le hstat, hk⟩)

theorem Kept.rmdir {t₀ : DirTree Name} (hsafe : ¬ ReachesOutside c t₀ path) (hpath : path ≠ []) (h : Kept c t₀ path t)
    (ns : List Name) : Kept c t₀ path (c.rmdir t (descend path ns)).1 := by
  rcases c.rmdir_cases t (descend path ns) with hrmdir | ⟨e, hroot, hnames, hentry, hdir, hrmdir⟩
  · rw [hrmdir]
    exact h
  · rw [hrmdir]
    refine h.remove hroot hnames ?_
    rcases ns.eq_nil_or_concat with rfl | ⟨ns, n, rfl⟩
    · intro hout
      have hrootOf : c.root t path = some e := by
        rw [Process.root, show c.entry t path = some e from hentry]
      exact hout e (Process.root_mono h.le hrootOf) (List.suffix_refl e)
    · rw [List.concat_eq_append, descend_concat, Process.entry_child (descend_ne_nil hpath ns)] at hentry
      obtain ⟨p, hopen, rfl⟩ := Option.map_eq_some_iff.mp hentry
      have hopen₀ := Process.opendir_mono h.le hopen
      have hdir₀ := DirTree.kind_mono h.le hdir
      by_cases hempty : t₀.names (n :: p) = []
      · exact not_outside_of_deletable hsafe hpath hopen₀ (.inr ⟨hdir₀, hempty⟩)
      · intro hout
        -- an entry of the folder is gone already, so it is the folder at the path: but the path leads here
        obtain ⟨m, hm⟩ := List.exists_mem_of_ne_nil _ hempty
        have hgone : t.kind (m :: n :: p) = none := by
          by_contra hne
          have hmem := DirTree.mem_names.mpr hne
          rw [hnames] at hmem
          cases hmem
        have hthere := DirTree.mem_names.mp hm
        have hin : ¬ Outside c t₀ path (m :: n :: p) := by
          intro hkept
          rw [← h.outside _ hkept] at hthere
          exact hthere hgone
        obtain ⟨q, hq⟩ := opendir_of_descend hpath hopen
        obtain ⟨r, hr, hrkind⟩ := Process.root_of_opendir hq
        have hr₀ := Process.root_mono h.le hr
        refine hin fun r' hr' hsuffix => ?_
        rw [hr₀] at hr'
        cases hr'
        rcases List.suffix_cons_iff.mp hsuffix with rfl | hsuffix
        · exact hrkind hgone
        · exact hout r hr₀ hsuffix

theorem folderDelete_kept (hsafe : ¬ ReachesOutside c t path)
    (h : folderDelete c readdir fuel t path = some (t', res)) : Kept c t path t' := by
  have hself : Kept c t path t := ⟨le_refl t, fun _ _ => rfl⟩
  by_cases hpath : path = []
  · subst hpath
    cases fuel with
    | zero => cases h
    | succ fuel =>
      rw [folderDelete, Process.opendir_nil] at h
      cases h
      exact hself
  · refine folderDelete_invariant (I := Kept c t path) ?_ ?_ [] hself h
    · intro t₁ ns n k hkept hstat hk
      exact hkept.unlink hsafe hpath hstat hk
    · intro t₁ ns hkept
      exact hkept.rmdir hsafe hpath ns

end UtilsManager

end Atf
