import Atf.CompareValues

/-!
# What `compareValues` decides (`atf/util.lua`)

A value embeds in another if it is the same, a text also in the number it is the text of, and a table in a table with
a sequence of the same length and, under each of its keys, a value that its own embeds in. `iter` stops at the first
value that does not embed and adds one message for it, so the list of messages is the result a second time
(`Outcome`). Whether a table has an entry is seen by its not being `nil`; this makes the relation transitive.
-/

namespace Atf
open Lua

/-- `a` embeds in `b`, where `b` may have more keys than `a`. -/
inductive Embeds (lib : ValueLib) : Value → Value → Prop
  | nil : Embeds lib .nil .nil
  | bool (b : Bool) : Embeds lib (.bool b) (.bool b)
  | num (n : Rat) : Embeds lib (.num n) (.num n)
  | str (s : String) : Embeds lib (.str s) (.str s)
  | numeral (n : Rat) : Embeds lib (.str (lib.numberToString n)) (.num n)
  | table {a b : Dict Key Value} {n : Nat} (left : IsSequence a n) (right : IsSequence b n)
    (entries : ∀ k v, (k, v) ∈ a → Embeds lib v (index b k)) : Embeds lib (.table a) (.table b)

variable {lib : ValueLib} {a b c : Value}

/-! ### Which values embed -/

theorem embeds_nil_iff : Embeds lib .nil b ↔ b = .nil := by
  constructor
  · rintro ⟨⟩
    rfl
  · rintro rfl
    exact .nil

theorem embeds_bool_iff {x : Bool} : Embeds lib (.bool x) b ↔ b = .bool x := by
  constructor
  · rintro ⟨⟩
    rfl
  · rintro rfl
    exact .bool x

theorem embeds_num_iff {n : Rat} : Embeds lib (.num n) b ↔ b = .num n := by
  constructor
  · rintro ⟨⟩
    rfl
  · rintro rfl
    exact .num n

theorem embeds_str_iff {s : String} :
    Embeds lib (.str s) b ↔ b = .str s ∨ ∃ n, b = .num n ∧ s = lib.numberToString n := by
  constructor
  · rintro ⟨⟩
    · exact .inl rfl
    · exact .inr ⟨_, rfl, rfl⟩
  · rintro (rfl | ⟨n, rfl, rfl⟩)
    · exact .str s
    · exact .numeral n

theorem embeds_table_iff {entries : Dict Key Value} : Embeds lib (.table entries) b ↔
    ∃ entries' n, b = .table entries' ∧ IsSequence entries n ∧ IsSequence entries' n ∧
      ∀ k v, (k, v) ∈ entries → Embeds lib v (index entries' k) := by
  constructor
  · intro h
    cases h with
    | table left right hentries => exact ⟨_, _, rfl, left, right, hentries⟩
  · rintro ⟨entries', n, rfl, left, right, hentries⟩
    exact .table left right hentries

theorem Embeds.eq_nil (h : Embeds lib a .nil) : a = .nil := by
  cases h
  rfl

theorem Embeds.refl (ha : a.Proper) : Embeds lib a a := by
  induction ha with
  | nil => exact .nil
  | bool b => exact .bool b
  | num n => exact .num n
  | str s => exact .str s
  | table keys sequence _ _ ih =>
    refine .table sequence sequence fun k v hmem => ?_
    rw [index_of_mem keys hmem]
    exact ih k v hmem

theorem Embeds.trans (hab : Embeds lib a b) (ha : a.Proper) (hbc : Embeds lib b c) : Embeds lib a c := by
  induction hab generalizing c with
  | nil => exact hbc
  | bool b => exact hbc
  | num n => exact hbc
  | str s => exact hbc
  | numeral n =>
    obtain rfl := embeds_num_iff.mp hbc
    exact .numeral n
  | table left right hab ih =>
    obtain ⟨entries', n, rfl, right', left', hentries⟩ := embeds_table_iff.mp hbc
    obtain rfl := right.unique right'
    cases ha with
    | table _ _ ne_nil proper =>
      refine .table left left' fun k v hmem => ?_
      -- the entry of the table in the middle is not missing, as only `nil` embeds in `nil`
      have hmid := mem_of_index_ne_nil fun hnil => ne_nil k v hmem (hnil ▸ hab k v hmem).eq_nil
      exact ih k v hmem (proper k v hmem) (hentries k _ hmid)

/-! ### The comparison -/

/-- What a comparison returns: the messages as they were, or with one text more if it failed. -/
def Outcome (P : Prop) (msg : List String) (result : Bool × List String) : Prop :=
  P ∧ result = (true, msg) ∨ ¬ P ∧ ∃ text, text ≠ "" ∧ result = (false, msg ++ [text])

theorem Outcome.ite {P : Prop} {msg : List String} {cond : Bool} {text : String} (h : P ↔ cond = true)
    (htext : text ≠ "") : Outcome P msg (if cond then (true, msg) else (false, msg ++ [text])) := by
  cases cond with
  | true => exact .inl ⟨h.mpr rfl, rfl⟩
  | false => exact .inr ⟨fun hp => Bool.false_ne_true (h.mp hp), text, htext, rfl⟩

theorem rawEqual_iff (h : ∀ x, a ≠ .table x) : a.rawEqual b = true ↔ b = a := by
  rw [eq_comm (a := b)]
  cases a with
  | table entries => exact absurd rfl (h entries)
  | _ => cases b <;> simp [Value.rawEqual]

theorem embeds_iff_rawEqual (htype : a.type = b.type) (h : ∀ x, a ≠ .table x) :
    Embeds lib a b ↔ a.rawEqual b = true := by
  rw [rawEqual_iff h]
  cases a with
  | nil => exact embeds_nil_iff
  | bool x => exact embeds_bool_iff
  | num n => exact embeds_num_iff
  | str s =>
    rw [embeds_str_iff, or_iff_left]
    rintro ⟨n, rfl, -⟩
    simp [Value.type] at htype
  | table entries => exact absurd rfl (h entries)

theorem embeds_numeral_iff (ha : a.type = "string") (hb : b.type = "number") :
    Embeds lib a b ↔ a.rawEqual (.str (b.tostring lib)) = true := by
  cases a <;> cases b <;> simp_all [embeds_str_iff, Value.type, Value.rawEqual, Value.tostring]

theorem Embeds.types (h : Embeds lib a b) : a.type = b.type ∨ a.type = "string" ∧ b.type = "number" := by
  cases h with
  | numeral n => exact .inr ⟨rfl, rfl⟩
  | _ => exact .inl rfl

theorem compareLeaf_outcome (h : ∀ x y, a = .table x → b ≠ .table y) (name : String) (msg : List String) :
    Outcome (Embeds lib a b) msg (compareLeaf lib a b name msg) := by
  unfold compareLeaf
  dsimp only
  split
  · rename_i htype
    refine Outcome.ite (embeds_iff_rawEqual htype ?_) (by simp)
    rintro x rfl
    cases b with
    | table y => exact h x y rfl rfl
    | _ => simp [Value.type] at htype
  · rename_i htype
    split
    · rename_i hnumeral
      exact Outcome.ite (embeds_numeral_iff hnumeral.1 hnumeral.2) (by simp)
    · rename_i hnumeral
      refine .inr ⟨fun hembeds => ?_, _, ?_, rfl⟩
      · rcases hembeds.types with hsame | hboth
        · exact htype hsame
        · exact hnumeral hboth
      · simp

theorem compareIter_leaf (h : ∀ x y, a = .table x → b ≠ .table y) (name : String) (msg : List String) :
    Outcome (Embeds lib a b) msg (compareIter lib a b name msg) := by
  have hleaf : compareIter lib a b name msg = compareLeaf lib a b name msg := by
    cases a with
    | table entries =>
      cases b with
      | table entries' => exact absurd rfl (h _ _ rfl)
      | _ => rw [compareIter]; rintro _ _ - ⟨⟩
    | _ => rw [compareIter]; rintro _ _ ⟨⟩
  rw [hleaf]
  exact compareLeaf_outcome h name msg

theorem compareEntries_false (a b : Dict Key Value) (name : String) (msg : List String) :
    compareEntries lib a b name false msg = (false, msg) := by
  induction a with
  | nil => rw [compareEntries]
  | cons entry a ih =>
    obtain ⟨k, v⟩ := entry
    rw [compareEntries, if_neg Bool.false_ne_true, ih]

mutual

theorem compareIter_outcome (a b : Value) (name : String) (msg : List String) (ha : a.Proper) (hb : b.Proper) :
    Outcome (Embeds lib a b) msg (compareIter lib a b name msg) := by
  match a, b with
  | .table a, .table b =>
    cases ha with
    | @table _ n keys sequence _ proper =>
      obtain ⟨m, hm⟩ : ∃ m, IsSequence b m := by
        cases hb with
        | table _ sequence' _ _ => exact ⟨_, sequence'⟩
      have hembeds : Embeds lib (.table a) (.table b) ↔ n = m ∧ ∀ k v, (k, v) ∈ a → Embeds lib v (index b k) := by
        constructor
        · intro h
          cases h with
          | table left right hentries => exact ⟨(sequence.unique left).trans (right.unique hm), hentries⟩
        · rintro ⟨rfl, hentries⟩
          exact .table sequence hm hentries
      rw [compareIter, sequence.border_eq, hm.border_eq]
      split
      · rename_i hne
        rw [compareEntries_false]
        exact .inr ⟨fun h => hne (hembeds.mp h).1, _, by simp, rfl⟩
      · rename_i heq
        rcases compareEntries_outcome a b name msg proper hb with ⟨hall, hresult⟩ | ⟨hnot, hresult⟩
        · exact .inl ⟨hembeds.mpr ⟨not_ne_iff.mp heq, hall⟩, hresult⟩
        · exact .inr ⟨fun h => hnot (hembeds.mp h).2, hresult⟩
  | .nil, b | .bool _, b | .num _, b | .str _, b =>
    exact compareIter_leaf (fun _ _ h => by cases h) name msg
  | a, .nil | a, .bool _ | a, .num _ | a, .str _ =>
    exact compareIter_leaf (fun _ _ _ h => by cases h) name msg

theorem compareEntries_outcome (a b : Dict Key Value) (name : String) (msg : List String)
    (ha : ∀ k v, (k, v) ∈ a → v.Proper) (hb : (Value.table b).Proper) :
    Outcome (∀ k v, (k, v) ∈ a → Embeds lib v (index b k)) msg (compareEntries lib a b name true msg) := by
  match a with
  | [] =>
    rw [compareEntries]
    exact .inl ⟨nofun, rfl⟩
  | (k, v) :: a =>
    have hv := compareIter_outcome v (index b k) (name ++ "." ++ k.toString) msg (ha k v List.mem_cons_self)
      (hb.index k)
    have hrest := compareEntries_outcome a b name msg (fun k v h => ha k v (List.mem_cons_of_mem _ h)) hb
    rw [compareEntries, if_pos rfl]
    rcases hv with ⟨hembeds, hresult⟩ | ⟨hnot, text, htext, hresult⟩
    · rw [hresult]
      dsimp only
      rcases hrest with ⟨hall, hresult⟩ | ⟨hnot, hresult⟩
      · refine .inl ⟨fun k' v' hmem => ?_, hresult⟩
        rcases List.mem_cons.mp hmem with heq | hmem
        · cases heq
          exact hembeds
        · exact hall k' v' hmem
      · exact .inr ⟨fun hall => hnot fun k' v' hmem => hall k' v' (List.mem_cons_of_mem _ hmem), hresult⟩
    · rw [hresult]
      dsimp only
      rw [compareEntries_false]
      exact .inr ⟨fun hall => hnot (hall k v List.mem_cons_self), text, htext, rfl⟩

end

theorem compareValues_outcome (lib : ValueLib) (ha : a.Proper) (hb : b.Proper) (name : String) :
    Embeds lib a b ∧ compareValues lib a b name = (true, "") ∨
      ¬ Embeds lib a b ∧ ∃ text, text ≠ "" ∧ compareValues lib a b name = (false, text) := by
  have houtcome : Outcome (Embeds lib a b) [] (compareIter lib a b name []) := compareIter_outcome a b name [] ha hb
  unfold compareValues
  rcases houtcome with ⟨hembeds, hresult⟩ | ⟨hnot, text, htext, hresult⟩
  · exact .inl ⟨hembeds, by rw [hresult]; rfl⟩
  · exact .inr ⟨hnot, text, htext, by rw [hresult]; rfl⟩

theorem compareValues_iff (ha : a.Proper) (hb : b.Proper) (name : String) :
    (compareValues lib a b name).1 = true ↔ Embeds lib a b := by
  rcases compareValues_outcome lib ha hb name with ⟨hembeds, hresult⟩ | ⟨hnot, text, -, hresult⟩
  · simp [hresult, hembeds]
  · simp [hresult, hnot]

/-- On proper values the comparison decides the embedding, its message is empty exactly if it succeeds, and what it
decides is reflexive and transitive. -/
theorem compareValues_decides_embedding (lib : ValueLib) (name : String) :
    (∀ a b : Value, a.Proper → b.Proper → ((compareValues lib a b name).1 = true ↔ Embeds lib a b)) ∧
      (∀ a b : Value, a.Proper → b.Proper →
        ((compareValues lib a b name).2 = "" ↔ (compareValues lib a b name).1 = true)) ∧
      (∀ a : Value, a.Proper → (compareValues lib a a name).1 = true) ∧
      ∀ a b c : Value, a.Proper → b.Proper → c.Proper → (compareValues lib a b name).1 = true →
        (compareValues lib b c name).1 = true → (compareValues lib a c name).1 = true := by
  refine ⟨fun a b ha hb => compareValues_iff ha hb name, fun a b ha hb => ?_, fun a ha => ?_, ?_⟩
  · rcases compareValues_outcome lib ha hb name with ⟨-, hresult⟩ | ⟨-, text, htext, hresult⟩
    · simp [hresult]
    · simp [hresult, htext]
  · exact (compareValues_iff ha ha name).mpr (.refl ha)
  · intro a b c ha hb hc hab hbc
    rw [compareValues_iff ha hb] at hab
    rw [compareValues_iff hb hc] at hbc
    exact (compareValues_iff ha hc name).mpr (hab.trans ha hbc)

namespace EmbeddingSample

def numberLib : ValueLib := ⟨fun n => toString n.num, fun _ => false⟩

/-- One element and a key. -/
def expected : Dict Key Value := [(.int 1, .bool true), (.str "id", .str "5")]

/-- The same in another order, with a number for the text and a key more. -/
def actual : Dict Key Value := [(.str "info", .str ""), (.str "id", .num 5), (.int 1, .bool true)]

theorem proper_expected : (Value.table expected).Proper := by
  refine .table (n := 1) (by decide) (fun i => ?_) ?_ ?_
  · simp only [expected, List.map_cons, List.map_nil, List.mem_cons, List.not_mem_nil, Key.int.injEq, reduceCtorEq,
      or_false]
    omega
  · rintro k v hmem rfl
    simp [expected] at hmem
  · intro k v hmem
    simp only [expected, List.mem_cons, List.not_mem_nil, or_false] at hmem
    rcases hmem with ⟨⟨⟩⟩ | ⟨⟨⟩⟩
    · exact .bool true
    · exact .str "5"

theorem proper_actual : (Value.table actual).Proper := by
  refine .table (n := 1) (by decide) (fun i => ?_) ?_ ?_
  · simp only [actual, List.map_cons, List.map_nil, List.mem_cons, List.not_mem_nil, Key.int.injEq, reduceCtorEq,
      or_false, false_or]
    omega
  · rintro k v hmem rfl
    simp [actual] at hmem
  · intro k v hmem
    simp only [actual, List.mem_cons, List.not_mem_nil, or_false] at hmem
    rcases hmem with ⟨⟨⟩⟩ | ⟨⟨⟩⟩ | ⟨⟨⟩⟩
    · exact .str ""
    · exact .num 5
    · exact .bool true

end EmbeddingSample

open EmbeddingSample in
/-- The expected table embeds in the other one, which does not embed in it. -/
theorem compareValues_decides_embedding_sample :
    Embeds numberLib (.table expected) (.table actual) ∧ ¬ Embeds numberLib (.table actual) (.table expected) ∧
      (compareValues numberLib (.table actual) (.table expected) "payload").2 ≠ "" := by
  obtain ⟨hiff, hmessage, -, -⟩ := compareValues_decides_embedding numberLib "payload"
  have hsome : (compareValues numberLib (.table expected) (.table actual) "payload").1 = true := by decide +kernel
  have hnone : (compareValues numberLib (.table actual) (.table expected) "payload").1 ≠ true := by decide +kernel
  refine ⟨(hiff _ _ proper_expected proper_actual).mp hsome, ?_, ?_⟩
  · rw [← hiff _ _ proper_actual proper_expected]
    exact hnone
  · rw [Ne, hmessage _ _ proper_actual proper_expected]
    exact hnone

end Atf
