import Atf.Lib.LuaPattern

/-!
# What a pattern matches

`Compiles` says what a pattern text means, independent of the fuel that `compileItems` runs on, and has one rule for
each kind of item. Whether the items match is then a question of how the text can be cut: a repetition takes a run of
its class and leaves the rest to what follows (`isSome_maxExpand_iff`), and as the longest run is tried first, a
pattern that ends in `.*` leaves nothing (`eq_nil_of_doMatch_any`).
-/

namespace Lua

/-! ### Compiling -/

/-- The text is the pattern of these items. -/
def Compiles (t : Text) (items : List (CharClass × Repeat)) (atEnd : Bool) : Prop :=
  ∀ fuel, t.length ≤ fuel → compileItems fuel t = .ok (items, atEnd)

namespace Compiles
variable {t : Text} {items : List (CharClass × Repeat)} {atEnd : Bool}

theorem nil : Compiles [] [] false := by
  intro fuel _
  cases fuel <;> rfl

theorem item {t₁ t₂ : Text} {cls : CharClass} {rep : Repeat} (hdollar : t ≠ ['$'])
    (hcls : compileClass t = .ok (cls, t₁)) (hrep : compileRepeat t₁ = (rep, t₂)) (hlt : t₂.length < t.length)
    (h : Compiles t₂ items atEnd) : Compiles t ((cls, rep) :: items) atEnd := by
  rintro (_ | fuel) hle
  · omega
  · cases t with
    | nil => cases hcls
    | cons c t =>
      have hrest := h fuel (by omega)
      simp only [compileItems, if_neg hdollar, hcls, hrep, hrest, bind, Except.bind]
      rfl

/-- The characters that repeat what precedes them. -/
def IsRepeat (c : Char) : Prop := c = '*' ∨ c = '+' ∨ c = '-' ∨ c = '?'

theorem compileRepeat_one (h : ∀ c ∈ t.head?, ¬ IsRepeat c) : compileRepeat t = (.one, t) := by
  unfold compileRepeat
  split
  · exact absurd (.inl rfl) (h _ rfl)
  · exact absurd (.inr (.inl rfl)) (h _ rfl)
  · exact absurd (.inr (.inr (.inl rfl))) (h _ rfl)
  · exact absurd (.inr (.inr (.inr rfl))) (h _ rfl)
  · rfl

theorem compileClass_alphanum {c : Char} (hc : c.isAlphanum = true) (t : Text) :
    compileClass (c :: t) = .ok (.char c, t) := by
  unfold compileClass
  split <;> simp_all +decide

/-- A word of letters and digits stands for itself. -/
theorem word {p : Text} (hp : ∀ c ∈ p, c.isAlphanum = true) (ht : ∀ c ∈ t.head?, ¬ IsRepeat c)
    (h : Compiles t items atEnd) : Compiles (p ++ t) (p.map (fun c => (.char c, .one)) ++ items) atEnd := by
  induction p with
  | nil => exact h
  | cons c p ih =>
    rw [List.forall_mem_cons] at hp
    have hne : c :: (p ++ t) ≠ ['$'] := by
      intro heq
      obtain ⟨rfl, -⟩ := List.cons.inj heq
      exact absurd hp.1 (by decide)
    have hhead : ∀ d ∈ (p ++ t).head?, ¬ IsRepeat d := by
      cases p with
      | nil => exact ht
      | cons d p =>
        rintro _ ⟨⟩ hrepeat
        have halnum := hp.2 d List.mem_cons_self
        rcases hrepeat with rfl | rfl | rfl | rfl <;> exact absurd halnum (by decide)
    exact item hne (compileClass_alphanum hp.1 _) (compileRepeat_one hhead) (Nat.lt_succ_self _) (ih hp.2)

/-- `%s*` -/
theorem spaces (h : Compiles t items atEnd) : Compiles ('%' :: 's' :: '*' :: t) ((.letter 's', .star) :: items) atEnd :=
  item (by simp) rfl rfl (by simp; omega) h

/-- A pattern with `^` in front is anchored. -/
theorem anchored (h : Compiles t items atEnd) : compile ('^' :: t) = .ok ⟨true, items, atEnd⟩ := by
  simp only [compile, h _ (Nat.le_refl _)]
  rfl

end Compiles

/-! ### Matching -/

section Matching
variable {cls : CharClass} {k : Text → Option Text} {s : Text} {atEnd : Bool} {items : List (CharClass × Repeat)}

theorem isSome_matchOne_iff :
    (matchOne cls k s).isSome = true ↔ ∃ c rest, s = c :: rest ∧ cls.test c = true ∧ (k rest).isSome = true := by
  cases s with
  | nil => simp [matchOne]
  | cons c s => by_cases hc : cls.test c <;> simp [matchOne, hc]

/-- A repetition takes some run of its class. -/
theorem isSome_maxExpand_iff :
    (maxExpand cls k s).isSome = true ↔
      ∃ run rest, s = run ++ rest ∧ (∀ c ∈ run, cls.test c = true) ∧ (k rest).isSome = true := by
  induction s with
  | nil =>
    constructor
    · intro h
      exact ⟨[], [], rfl, List.forall_mem_nil _, h⟩
    · rintro ⟨run, rest, heq, -, h⟩
      obtain ⟨rfl, rfl⟩ := List.nil_eq_append_iff.mp heq
      exact h
  | cons c s ih =>
    by_cases hc : cls.test c = true
    · rw [maxExpand, if_pos hc, Option.orElse_eq_orElse, Option.orElse_eq_or, Option.isSome_or, Bool.or_eq_true, ih]
      constructor
      · rintro (⟨run, rest, rfl, hrun, h⟩ | h)
        · exact ⟨c :: run, rest, rfl, List.forall_mem_cons.mpr ⟨hc, hrun⟩, h⟩
        · exact ⟨[], c :: s, rfl, List.forall_mem_nil _, h⟩
      · rintro ⟨run, rest, heq, hrun, h⟩
        cases run with
        | nil =>
          cases heq
          exact .inr h
        | cons d run =>
          obtain ⟨rfl, rfl⟩ := List.cons.inj heq
          exact .inl ⟨run, rest, rfl, (List.forall_mem_cons.mp hrun).2, h⟩
    · rw [maxExpand, if_neg hc]
      constructor
      · intro h
        exact ⟨[], c :: s, rfl, List.forall_mem_nil _, h⟩
      · rintro ⟨run, rest, heq, hrun, h⟩
        cases run with
        | nil =>
          cases heq
          exact h
        | cons d run =>
          obtain ⟨rfl, rfl⟩ := List.cons.inj heq
          exact absurd (hrun c List.mem_cons_self) hc

/-- A word of letters and digits is matched by itself. -/
theorem isSome_doMatch_word_iff {p : Text} :
    (doMatch atEnd (p.map (fun c => (.char c, .one)) ++ items) s).isSome = true ↔
      ∃ rest, s = p ++ rest ∧ (doMatch atEnd items rest).isSome = true := by
  induction p generalizing s with
  | nil => simp
  | cons c p ih =>
    rw [List.map_cons, List.cons_append, doMatch, isSome_matchOne_iff]
    constructor
    · rintro ⟨d, rest, rfl, hd, h⟩
      obtain rfl : c = d := of_decide_eq_true hd
      obtain ⟨rest', rfl, h'⟩ := ih.mp h
      exact ⟨rest', rfl, h'⟩
    · rintro ⟨rest, rfl, h⟩
      exact ⟨c, p ++ rest, rfl, decide_eq_true rfl, ih.mpr ⟨rest, rfl, h⟩⟩

theorem eq_some_of_orElse {a b : Option Text} {t : Text} (h : (a <|> b) = some t) : a = some t ∨ b = some t := by
  cases a with
  | none => exact .inr h
  | some a => exact .inl h

/-- What every way to go on leaves is left. -/
theorem maxExpand_spec {P : Text → Prop} (hk : ∀ t r, k t = some r → P r) {rest : Text}
    (h : maxExpand cls k s = some rest) : P rest := by
  induction s with
  | nil => exact hk _ _ h
  | cons c s ih =>
    unfold maxExpand at h
    split at h
    · rcases eq_some_of_orElse h with h | h
      · exact ih h
      · exact hk _ _ h
    · exact hk _ _ h

theorem minExpand_spec {P : Text → Prop} (hk : ∀ t r, k t = some r → P r) {rest : Text}
    (h : minExpand cls k s = some rest) : P rest := by
  induction s with
  | nil => exact hk _ _ h
  | cons c s ih =>
    unfold minExpand at h
    rcases eq_some_of_orElse h with h | h
    · exact hk _ _ h
    · split at h
      · exact ih h
      · cases h

theorem matchOne_spec {P : Text → Prop} (hk : ∀ t r, k t = some r → P r) {rest : Text}
    (h : matchOne cls k s = some rest) : P rest := by
  cases s with
  | nil => cases h
  | cons c s =>
    by_cases hc : cls.test c = true
    · rw [matchOne, if_pos hc] at h
      exact hk _ _ h
    · rw [matchOne, if_neg hc] at h
      cases h

theorem maxExpand_any (hk : ∀ t, k t = some t) (s : Text) : maxExpand .any k s = some [] := by
  induction s with
  | nil => exact hk []
  | cons c s ih =>
    have hc : CharClass.any.test c = true := rfl
    rw [maxExpand, if_pos hc, ih]
    rfl

/-- A pattern that ends in `.*` matches up to the end of the text. -/
theorem eq_nil_of_doMatch_any {rest : Text} (h : doMatch false (items ++ [(.any, .star)]) s = some rest) :
    rest = [] := by
  induction items generalizing s rest with
  | nil =>
    have hany : doMatch false [(.any, .star)] s = some [] := maxExpand_any (fun _ => rfl) s
    exact Option.some.inj (h.symm.trans hany)
  | cons item items ih =>
    obtain ⟨cls, rep⟩ := item
    cases rep with
    | one => exact matchOne_spec (P := (· = [])) (fun _ _ => ih) h
    | star => exact maxExpand_spec (P := (· = [])) (fun _ _ => ih) h
    | plus => exact matchOne_spec (P := (· = [])) (fun _ _ => maxExpand_spec (P := (· = [])) fun _ _ => ih) h
    | minus => exact minExpand_spec (P := (· = [])) (fun _ _ => ih) h
    | optional =>
      rcases eq_some_of_orElse h with h | h
      · exact matchOne_spec (P := (· = [])) (fun _ _ => ih) h
      · exact ih h

end Matching

/-! ### Searching -/

theorem search_anchored (items : List (CharClass × Repeat)) (atEnd : Bool) (s : Text) :
    search ⟨true, items, atEnd⟩ s = (doMatch atEnd items s).map fun rest => (s, rest) := by
  cases s with
  | nil => rfl
  | cons c s =>
    unfold search
    dsimp only
    split
    · rename_i rest hmatch
      rw [hmatch]
      rfl
    · rename_i hmatch
      rw [hmatch]
      rfl

theorem isSome_search_iff {p : Pattern} (hp : p.anchored = false) {s : Text} :
    (search p s).isSome = true ↔ ∃ pre t, s = pre ++ t ∧ (doMatch p.atEnd p.items t).isSome = true := by
  induction s with
  | nil =>
    rw [search, Option.isSome_map]
    constructor
    · intro h
      exact ⟨[], [], rfl, h⟩
    · rintro ⟨pre, t, heq, h⟩
      obtain ⟨rfl, rfl⟩ := List.nil_eq_append_iff.mp heq
      exact h
  | cons c s ih =>
    unfold search
    cases hmatch : doMatch p.atEnd p.items (c :: s) with
    | some rest =>
      refine iff_of_true rfl ⟨[], c :: s, rfl, ?_⟩
      rw [hmatch]
      rfl
    | none =>
      simp only [hp, Bool.false_eq_true, if_false]
      rw [ih]
      constructor
      · rintro ⟨pre, t, rfl, h⟩
        exact ⟨c :: pre, t, rfl, h⟩
      · rintro ⟨pre, t, heq, h⟩
        cases pre with
        | nil =>
          cases heq
          rw [hmatch] at h
          cases h
        | cons d pre =>
          obtain ⟨rfl, rfl⟩ := List.cons.inj heq
          exact ⟨pre, t, rfl, h⟩

/-- Where the items do not match, the search goes on. -/
theorem search_skip {p : Pattern} (hp : p.anchored = false) {pre : Text} (s : Text)
    (h : ∀ c ∈ pre, ∀ t, doMatch p.atEnd p.items (c :: t) = none) : search p (pre ++ s) = search p s := by
  induction pre with
  | nil => rfl
  | cons c pre ih =>
    rw [List.forall_mem_cons] at h
    rw [List.cons_append, search, h.1]
    simp only [hp, Bool.false_eq_true, if_false]
    exact ih h.2

/-! ### Replacing -/

theorem expandReplacement_cons {whole : Text} {c : Char} (hc : c ≠ '%') (repl : Text) :
    expandReplacement whole (c :: repl) = (expandReplacement whole repl).map (c :: ·) :=
  expandReplacement.eq_4 whole c repl (fun h => absurd h hc) (fun _ _ h => absurd h hc)

theorem expandReplacement_append {whole a b r : Text} (ha : '%' ∉ a) (hb : expandReplacement whole b = .ok r) :
    expandReplacement whole (a ++ b) = .ok (a ++ r) := by
  induction a with
  | nil => exact hb
  | cons c a ih =>
    rw [List.mem_cons, not_or] at ha
    rw [List.cons_append, expandReplacement_cons (Ne.symm ha.1), ih ha.2]
    rfl

/-- A text whose `%` are doubled is replaced by itself. -/
theorem expandReplacement_double (whole s : Text) :
    expandReplacement whole (s.flatMap fun c => if c = '%' then ['%', '%'] else [c]) = .ok s := by
  induction s with
  | nil => rfl
  | cons c s ih =>
    rw [List.flatMap_cons]
    by_cases hc : c = '%'
    · subst hc
      simp only [if_true, List.cons_append, List.nil_append, expandReplacement, ih]
      rfl
    · rw [if_neg hc, List.singleton_append, expandReplacement_cons hc, ih]
      rfl

end Lua
