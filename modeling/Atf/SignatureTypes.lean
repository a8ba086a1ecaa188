import Mathlib.Data.List.TakeWhile
import Mathlib.Data.List.Basic

/-!
# The types of a signature

Two loops split the text `t1,...,tn` of a normalized signature: `typesFromString`, whose inner loop steps over
the comma before it sees it and so leaves it in the type, and the loop of `get_marshalling_list`, which copies
each type into a buffer of 80 bytes.
-/

namespace Atf

/-- A C string: the characters before its `'\0'`. -/
abbrev CString := List Char

namespace Signature

/-! ### `typesFromString` -/

/-- `while (p != end && *p++ != ',')`: what the loop steps over and what is left. -/
def stepOverType : CString → CString × CString
  | [] => ([], [])
  | c :: p => if c ≠ ',' then (c :: (stepOverType p).1, (stepOverType p).2) else ([c], p)

/-- Every round takes a character at least, so `fuel` as long as the text is enough. -/
def typesLoop : (fuel : Nat) → CString → List CString
  | 0, _ => []
  | _, [] => []
  | fuel + 1, c :: p =>
    let b := if c = ',' then p else c :: p
    let rest := typesLoop fuel (stepOverType b).2
    if (stepOverType b).1 ≠ [] then (stepOverType b).1 :: rest else rest

def typesFromString (str : CString) : List CString := typesLoop str.length str

/-- The text that its callers give to `typesFromString`, from `indexOf('(') + 1` to `indexOf(')')`. -/
def argumentText (signature : CString) : CString :=
  (signature.take (signature.idxOf ')')).drop (signature.idxOf '(' + 1)

/-! ### `get_marshalling_list` -/

def BUFFER_SIZE : Nat := 80

def NUL : Char := '\x00'

/-- `while (*p && *p++ != '(')` -/
def skipOpening : CString → CString
  | [] => []
  | c :: p => if c ≠ '(' then skipOpening p else p

/-- The stores of `*b++ = *p++` and `*b = '\0'` from cell `b` on, and where `p` stops. -/
def copyType : (b : Nat) → CString → List (Nat × Char) × CString
  | b, [] => ([(b, NUL)], [])
  | b, c :: p =>
    if c ≠ ',' ∧ c ≠ ')' then ((b, c) :: (copyType (b + 1) p).1, (copyType (b + 1) p).2)
    else ([(b, NUL)], c :: p)

/-- `if (*p == ',') ++p` -/
def skipComma : CString → CString
  | [] => []
  | c :: p => if c = ',' then p else c :: p

/-- The stores in `buffer`, round by round. -/
def marshallingLoop : (fuel : Nat) → CString → List (List (Nat × Char))
  | 0, _ => []
  | _, [] => []
  | fuel + 1, c :: p =>
    if c ≠ ')' then (copyType 0 (c :: p)).1 :: marshallingLoop fuel (skipComma (copyType 0 (c :: p)).2) else []

def bufferStores (signature : CString) : List (List (Nat × Char)) :=
  marshallingLoop signature.length (skipOpening signature)

/-- The string in `buffer` after the stores of one round. -/
def storedType (stores : List (Nat × Char)) : CString := (stores.map Prod.snd).dropLast

/-- The types that `get_marshalling_list` looks up. After a store outside of `buffer` nothing is known. -/
def lookedUp (signature : CString) : Option (List CString) :=
  if ∀ stores ∈ bufferStores signature, ∀ store ∈ stores, store.1 < BUFFER_SIZE then
    some ((bufferStores signature).map storedType)
  else none

/-! ### The types between commas -/

/-- The pieces between the commas of `text`, without an empty last one. -/
def pieces (text : CString) : List CString :=
  if (text.splitOn ',').getLast? = some [] then (text.splitOn ',').dropLast else text.splitOn ','

theorem pieces_nil : pieces [] = [] := rfl

theorem pieces_of_notMem {t : CString} (ht : ',' ∉ t) (hne : t ≠ []) : pieces t = [t] := by
  have hsplit : t.splitOn ',' = [t] := List.splitOn_eq_singleton ht
  rw [pieces, hsplit, if_neg]
  simpa using hne

theorem pieces_append {t : CString} (ht : ',' ∉ t) (u : CString) : pieces (t ++ ',' :: u) = t :: pieces u := by
  have hne : u.splitOn ',' ≠ [] := List.splitOn_ne_nil ',' u
  have hlast : (t :: u.splitOn ',').getLast? = (u.splitOn ',').getLast? :=
    List.getLast?_cons_of_ne_nil hne
  rw [pieces, List.splitOn_append_cons_self_of_not_mem ht, hlast, List.dropLast_cons_of_ne_nil hne, pieces]
  split <;> rfl

/-! ### What the loops compute -/

/-- The stores of one round that copies `t`. -/
def storesOf (t : CString) : List (Nat × Char) := ((t ++ [NUL]).zipIdx 0).map Prod.swap

theorem storedType_storesOf (t : CString) : storedType (storesOf t) = t := by
  simp [storedType, storesOf, Function.comp_def]

/-- Stores in the cells from 0 to `n`, in order. -/
theorem cells_lt_iff {ω : Type} {stores : List (Nat × ω)} {n : Nat}
    (hcells : stores.map Prod.fst = List.range' 0 (n + 1)) (size : Nat) :
    (∀ store ∈ stores, store.1 < size) ↔ n < size := by
  have hmap : (∀ store ∈ stores, store.1 < size) ↔ ∀ cell ∈ stores.map Prod.fst, cell < size := by
    rw [List.forall_mem_map]
  rw [hmap, hcells]
  simp only [List.mem_range'_1]
  constructor
  · intro h
    exact h n (by omega)
  · intro h cell hcell
    omega

/-- The last store of a round ends the string. -/
theorem storesOf_lt_iff (t : CString) (size : Nat) : (∀ store ∈ storesOf t, store.1 < size) ↔ t.length < size := by
  have hcells : (storesOf t).map Prod.fst = List.range' 0 (t.length + 1) := by
    simp [storesOf, Function.comp_def, List.zipIdx_map_snd]
  exact cells_lt_iff hcells size

/-- The names between the parentheses of the signature. -/
def argumentNames (signature : CString) : List CString :=
  pieces ((signature.dropWhile (· ≠ '(')).tail.takeWhile (· ≠ ')'))

theorem skipOpening_eq (p : CString) : skipOpening p = (p.dropWhile (· ≠ '(')).tail := by
  induction p with
  | nil => rfl
  | cons c p ih => by_cases hc : c = '(' <;> simp [skipOpening, hc, ih]

theorem length_skipOpening (p : CString) : (skipOpening p).length ≤ p.length := by
  rw [skipOpening_eq, List.length_tail]
  have := (List.dropWhile_sublist (· ≠ '(') (l := p)).length_le
  omega

/-- One round copies the characters up to a comma, a closing parenthesis or the end. -/
theorem copyType_spec (b : Nat) (p : CString) : ∃ t r, p = t ++ r ∧ ',' ∉ t ∧ ')' ∉ t ∧
    copyType b p = (((t ++ [NUL]).zipIdx b).map Prod.swap, r) ∧
    (r = [] ∨ (∃ r', r = ',' :: r') ∨ ∃ r', r = ')' :: r') := by
  induction p generalizing b with
  | nil => exact ⟨[], [], rfl, List.not_mem_nil, List.not_mem_nil, rfl, .inl rfl⟩
  | cons c p ih =>
    by_cases hc : c ≠ ',' ∧ c ≠ ')'
    · obtain ⟨t, r, hp, hcomma, hclose, hcopy, hr⟩ := ih (b + 1)
      refine ⟨c :: t, r, by rw [hp, List.cons_append], ?_, ?_, ?_, hr⟩
      · exact List.not_mem_cons_of_ne_of_not_mem hc.1.symm hcomma
      · exact List.not_mem_cons_of_ne_of_not_mem hc.2.symm hclose
      · rw [copyType, if_pos hc, hcopy]
        rfl
    · have hr : c = ',' ∨ c = ')' := by
        by_contra hne
        exact hc (not_or.mp hne)
      refine ⟨[], c :: p, rfl, List.not_mem_nil, List.not_mem_nil, ?_, .inr ?_⟩
      · rw [copyType, if_neg hc]
        rfl
      · rcases hr with rfl | rfl
        · exact .inl ⟨p, rfl⟩
        · exact .inr ⟨p, rfl⟩

theorem takeWhile_of_notMem {t : CString} (h : ')' ∉ t) (r : CString) :
    (t ++ r).takeWhile (· ≠ ')') = t ++ r.takeWhile (· ≠ ')') :=
  List.takeWhile_append_of_pos fun _ hc => decide_eq_true fun heq => h (heq ▸ hc)

theorem marshallingLoop_eq {fuel : Nat} {p : CString} (hf : p.length ≤ fuel) :
    marshallingLoop fuel p = (pieces (p.takeWhile (· ≠ ')'))).map storesOf := by
  induction fuel generalizing p with
  | zero =>
    obtain rfl := List.length_eq_zero_iff.mp (Nat.le_zero.mp hf)
    rfl
  | succ fuel ih =>
    rcases p with _ | ⟨c, p⟩
    · rfl
    by_cases hc : c = ')'
    · simp [marshallingLoop, hc, pieces_nil]
    obtain ⟨t, r, hp, hcomma, hclose, hcopy, hr⟩ := copyType_spec 0 (c :: p)
    rw [marshallingLoop, if_pos hc, hcopy, hp, takeWhile_of_notMem hclose]
    have hlen : t.length + r.length ≤ fuel + 1 := by
      rw [← List.length_append, ← hp]
      exact hf
    rcases hr with rfl | ⟨r', rfl⟩ | ⟨r', rfl⟩
    · -- the text ends
      have hne : t ≠ [] := by
        rintro rfl
        cases hp
      have hrest : marshallingLoop fuel (skipComma []) = [] := by
        rcases fuel with _ | fuel <;> rfl
      rw [hrest, List.takeWhile_nil, List.append_nil, pieces_of_notMem hcomma hne]
      rfl
    · have hrest : skipComma (',' :: r') = r' := rfl
      have hcons : (',' :: r').takeWhile (· ≠ ')') = ',' :: r'.takeWhile (· ≠ ')') := rfl
      have hfuel : r'.length ≤ fuel := by
        rw [List.length_cons] at hlen
        omega
      rw [hrest, hcons, pieces_append hcomma, List.map_cons, ih hfuel]
      rfl
    · -- the parenthesis is closed
      have hne : t ≠ [] := by
        rintro rfl
        rw [List.nil_append, List.cons.injEq] at hp
        exact hc hp.1
      have hrest : marshallingLoop fuel (skipComma (')' :: r')) = [] := by
        rcases fuel with _ | fuel <;> rfl
      have hstop : (')' :: r').takeWhile (· ≠ ')') = [] := rfl
      rw [hrest, hstop, List.append_nil, pieces_of_notMem hcomma hne]
      rfl

theorem bufferStores_eq (signature : CString) : bufferStores signature = (argumentNames signature).map storesOf := by
  rw [bufferStores, marshallingLoop_eq (length_skipOpening signature), skipOpening_eq, argumentNames]

theorem bufferStores_lt_iff (signature : CString) :
    (∀ stores ∈ bufferStores signature, ∀ store ∈ stores, store.1 < BUFFER_SIZE) ↔
      ∀ t ∈ argumentNames signature, t.length < BUFFER_SIZE := by
  rw [bufferStores_eq, List.forall_mem_map]
  simp only [storesOf_lt_iff]

theorem lookedUp_eq (signature : CString) : lookedUp signature =
    if ∀ t ∈ argumentNames signature, t.length < BUFFER_SIZE then some (argumentNames signature) else none := by
  have hnames : (bufferStores signature).map storedType = argumentNames signature := by
    rw [bufferStores_eq, List.map_map]
    exact (List.map_congr_left fun t _ => storedType_storesOf t).trans (List.map_id _)
  simp only [lookedUp, bufferStores_lt_iff, hnames]

/-! ### The signature of a name and types -/

/-- The types with commas between them. -/
def joined (types : List CString) : CString := [','].intercalate types

/-- `name(t1,...,tn)` -/
def ofTypes (name : CString) (types : List CString) : CString := name ++ '(' :: (joined types ++ [')'])

/-- A type in a signature that can be split at its commas. -/
structure IsType (t : CString) : Prop where
  ne_nil : t ≠ []
  comma : ',' ∉ t
  opening : '(' ∉ t
  closing : ')' ∉ t

theorem joined_cons_cons (t u : CString) (types : List CString) :
    joined (t :: u :: types) = t ++ ',' :: joined (u :: types) := by
  simp [joined, List.intercalate]

theorem notMem_joined {c : Char} (hc : c ≠ ',') {types : List CString} (h : ∀ t ∈ types, c ∉ t) :
    c ∉ joined types := by
  induction types with
  | nil => exact List.not_mem_nil
  | cons t types ih =>
    rcases types with _ | ⟨u, types⟩
    · simpa [joined, List.intercalate] using h
    · rw [joined_cons_cons, List.mem_append, List.mem_cons, not_or, not_or]
      exact ⟨h t List.mem_cons_self, hc, ih fun v hv => h v (List.mem_cons_of_mem t hv)⟩

theorem argumentText_ofTypes {name : CString} (hopen : '(' ∉ name) (hclose : ')' ∉ name) {types : List CString}
    (h : ∀ t ∈ types, ')' ∉ t) : argumentText (ofTypes name types) = joined types := by
  have hjoined : ')' ∉ joined types := notMem_joined (by decide) h
  have hfirst : (ofTypes name types).idxOf '(' = name.length := by
    rw [ofTypes, List.idxOf_append_of_notMem hopen, List.idxOf_cons_self, Nat.add_zero]
  have hsplit : ofTypes name types = (name ++ '(' :: joined types) ++ [')'] := by simp [ofTypes]
  have hlast : (ofTypes name types).idxOf ')' = (name ++ '(' :: joined types).length := by
    have hnot : ')' ∉ name ++ '(' :: joined types := by simp [hclose, hjoined]
    rw [hsplit, List.idxOf_append_of_notMem hnot, List.idxOf_cons_self, Nat.add_zero]
  rw [argumentText, hfirst, hlast, hsplit, List.take_left', List.drop_append]
  · simp
  · rfl

theorem pieces_joined {types : List CString} (h : ∀ t ∈ types, IsType t) : pieces (joined types) = types := by
  induction types with
  | nil => rfl
  | cons t types ih =>
    have ht := h t List.mem_cons_self
    rcases types with _ | ⟨u, types⟩
    · have hsingle : joined [t] = t := by simp [joined, List.intercalate]
      rw [hsingle, pieces_of_notMem ht.comma ht.ne_nil]
    · rw [joined_cons_cons, pieces_append ht.comma, ih fun v hv => h v (List.mem_cons_of_mem t hv)]

theorem argumentNames_ofTypes {name : CString} (hopen : '(' ∉ name) {types : List CString}
    (h : ∀ t ∈ types, IsType t) : argumentNames (ofTypes name types) = types := by
  have hjoined : ')' ∉ joined types := notMem_joined (by decide) fun t ht => (h t ht).closing
  have hdrop : (ofTypes name types).dropWhile (· ≠ '(') = '(' :: (joined types ++ [')']) := by
    have hname : ∀ c ∈ name, decide (c ≠ '(') = true := fun _ hc => decide_eq_true fun heq => hopen (heq ▸ hc)
    rw [ofTypes, List.dropWhile_append_of_pos hname]
    rfl
  rw [argumentNames, hdrop, List.tail_cons, takeWhile_of_notMem hjoined]
  have hstop : [')'].takeWhile (· ≠ ')') = [] := rfl
  rw [hstop, List.append_nil, pieces_joined h]

/-! ### The types of `typesFromString` -/

/-- What `typesFromString` makes of the types: all but the last keep the comma behind them. -/
def withCommas : List CString → List CString
  | [] => []
  | [t] => [t]
  | t :: u :: types => (t ++ [',']) :: withCommas (u :: types)

theorem stepOverType_append {t : CString} (ht : ',' ∉ t) (p : CString) :
    stepOverType (t ++ ',' :: p) = (t ++ [','], p) := by
  induction t with
  | nil => rfl
  | cons c t ih =>
    rw [List.mem_cons, not_or] at ht
    have hc : c ≠ ',' := fun h => ht.1 h.symm
    simp [stepOverType, hc, ih ht.2]

theorem stepOverType_of_notMem {t : CString} (ht : ',' ∉ t) : stepOverType t = (t, []) := by
  induction t with
  | nil => rfl
  | cons c t ih =>
    rw [List.mem_cons, not_or] at ht
    have hc : c ≠ ',' := fun h => ht.1 h.symm
    simp [stepOverType, hc, ih ht.2]

/-- A round that starts at a type takes what `stepOverType` steps over. -/
theorem typesLoop_type {t : CString} (ht : IsType t) (fuel : Nat) (p : CString)
    (hne : (stepOverType (t ++ p)).1 ≠ []) : typesLoop (fuel + 1) (t ++ p) =
      (stepOverType (t ++ p)).1 :: typesLoop fuel (stepOverType (t ++ p)).2 := by
  rcases t with _ | ⟨c, t⟩
  · exact absurd rfl ht.ne_nil
  have hc : c ≠ ',' := fun h => ht.comma (h ▸ List.mem_cons_self)
  rw [List.cons_append] at hne ⊢
  simp only [typesLoop, if_neg hc, if_pos hne]

theorem typesLoop_joined {fuel : Nat} {types : List CString} (h : ∀ t ∈ types, IsType t)
    (hf : (joined types).length ≤ fuel) : typesLoop fuel (joined types) = withCommas types := by
  induction types generalizing fuel with
  | nil => rcases fuel with _ | fuel <;> rfl
  | cons t types ih =>
    have ht := h t List.mem_cons_self
    have hpos := List.length_pos_iff.mpr ht.ne_nil
    rcases types with _ | ⟨u, types⟩
    · have hsingle : joined [t] = t := by simp [joined, List.intercalate]
      rw [hsingle] at hf ⊢
      obtain ⟨fuel, rfl⟩ := Nat.exists_eq_add_of_le' (hpos.trans_le hf)
      have hstep := stepOverType_of_notMem ht.comma
      have hround := typesLoop_type ht fuel [] (by rw [List.append_nil, hstep]; exact ht.ne_nil)
      rw [List.append_nil, hstep] at hround
      rw [hround]
      rcases fuel with _ | fuel <;> rfl
    · rw [joined_cons_cons, List.length_append, List.length_cons] at hf
      obtain ⟨fuel, rfl⟩ := Nat.exists_eq_add_of_le' (show 1 ≤ fuel by omega)
      have hstep := stepOverType_append ht.comma (joined (u :: types))
      have hround := typesLoop_type ht fuel (',' :: joined (u :: types)) (by rw [hstep]; simp)
      rw [hstep] at hround
      rw [joined_cons_cons, hround, withCommas, ih (fun v hv => h v (List.mem_cons_of_mem t hv)) (by omega)]

theorem typesFromString_ofTypes {name : CString} (hopen : '(' ∉ name) (hclose : ')' ∉ name) {types : List CString}
    (h : ∀ t ∈ types, IsType t) : typesFromString (argumentText (ofTypes name types)) = withCommas types := by
  rw [argumentText_ofTypes hopen hclose fun t ht => (h t ht).closing]
  exact typesLoop_joined h (Nat.le_refl _)

theorem withCommas_eq_iff (types : List CString) : withCommas types = types ↔ types.length ≤ 1 := by
  rcases types with _ | ⟨t, _ | ⟨u, types⟩⟩
  · simp [withCommas]
  · simp [withCommas]
  · simp [withCommas]

/-! ### The two parsers -/

/-- Both parsers find the types of the signature. -/
def ParsersAgree (name : CString) (types : List CString) : Prop :=
  typesFromString (argumentText (ofTypes name types)) = types ∧ lookedUp (ofTypes name types) = some types

/-- Both parsers read the types of a signature exactly if there is one at most and its name fits in the buffer. -/
theorem parsersAgree_iff (name : CString) (types : List CString) (hopen : '(' ∉ name) (hclose : ')' ∉ name)
    (h : ∀ t ∈ types, IsType t) :
    ParsersAgree name types ↔ types.length ≤ 1 ∧ ∀ t ∈ types, t.length < 80 := by
  have hlooked : lookedUp (ofTypes name types) = some types ↔ ∀ t ∈ types, t.length < 80 := by
    rw [lookedUp_eq, argumentNames_ofTypes hopen h]
    by_cases hlen : ∀ t ∈ types, t.length < BUFFER_SIZE
    · rw [if_pos hlen]
      exact iff_of_true rfl hlen
    · rw [if_neg hlen]
      exact iff_of_false (Option.some_ne_none types).symm hlen
  rw [ParsersAgree, typesFromString_ofTypes hopen hclose h, withCommas_eq_iff, hlooked]

theorem isType_int : IsType ['i', 'n', 't'] :=
  ⟨List.cons_ne_nil _ _, by decide, by decide, by decide⟩

theorem parsersAgree_f_int : ParsersAgree ['f'] [['i', 'n', 't']] :=
  (parsersAgree_iff ['f'] [['i', 'n', 't']] (by decide) (by decide)
    (List.forall_mem_singleton.mpr isType_int)).mpr ⟨by decide, by decide⟩

/-- `typesFromString` reads `int,` and `bool` in `f(int,bool)`. -/
theorem parsers_differ_f_int_bool : ¬ ParsersAgree ['f'] [['i', 'n', 't'], ['b', 'o', 'o', 'l']] := by
  intro h
  have htypes : typesFromString (argumentText (ofTypes ['f'] [['i', 'n', 't'], ['b', 'o', 'o', 'l']])) =
      [['i', 'n', 't', ','], ['b', 'o', 'o', 'l']] := by decide
  exact absurd (htypes.symm.trans h.1) (by decide)

end Signature

end Atf
