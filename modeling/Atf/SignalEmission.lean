import Atf.SignatureTypes

/-!
# The buffers of a signal emission

`get_marshalling_list` has 80 bytes for the name of a type. `qtlua_emit_signal` has eight cells for the
arguments, or as many as there are arguments when these are more than eight; the arguments stand from cell 1 on,
so eight or more of them need one cell more than there is. A type without a marshaller ends the emission at a null
pointer before its argument is stored.
-/

namespace Atf
namespace Signature

/-! ### The marshallers -/

inductive Marshaller
  | int
  | qint64
  | bool
  | QString
  | QByteArray
deriving DecidableEq

/-- The entry of the map `marshallers`, `none` for a null pointer. -/
def Marshaller.get (type : CString) : Option Marshaller :=
  if type = ['i', 'n', 't'] then some .int
  else if type = ['q', 'i', 'n', 't', '6', '4'] then some .qint64
  else if type = ['b', 'o', 'o', 'l'] then some .bool
  else if type = ['Q', 'S', 't', 'r', 'i', 'n', 'g'] then some .QString
  else if type = ['Q', 'B', 'y', 't', 'e', 'A', 'r', 'r', 'a', 'y'] then some .QByteArray
  else none

def get_marshalling_list (signature : CString) : Option (List (Option Marshaller)) :=
  (lookedUp signature).map (·.map Marshaller.get)

/-! ### `qtlua_emit_signal` -/

/-- The array `args`: how many cells it has and the stores in it, in order. -/
structure Arguments (ω : Type) where
  length : Nat
  stores : List (Nat × Option ω)

variable {ω : Type} (marshal : Marshaller → (index : Nat) → Option ω)

/-- The stores of the loop from `i` on. The call of `Marshal` through a null pointer is the end of the run. -/
def emitLoop : (i : Nat) → List (Option Marshaller) → List (Nat × Option ω)
  | _, [] => []
  | _, none :: _ => []
  | i, some marshaller :: rest => (i, marshal marshaller (i + 1)) :: emitLoop (i + 1) rest

/-- `marshal` answers with the pointer that `Marshal` makes of the value at an index of the Lua stack, `none` when it
is null. -/
def qtlua_emit_signal (marshallers : List (Option Marshaller)) : Arguments ω :=
  let msize := marshallers.length
  { length := if msize > 8 then msize else 8
    stores := (0, none) :: emitLoop marshal 1 marshallers }

/-- Every store that the lookup of the types and the emission of the signal make is inside its buffer. -/
def InBuffers (signature : CString) : Prop :=
  (∀ stores ∈ bufferStores signature, ∀ store ∈ stores, store.1 < BUFFER_SIZE) ∧
    ∀ marshallers, get_marshalling_list signature = some marshallers →
      ∀ store ∈ (qtlua_emit_signal marshal marshallers).stores,
        store.1 < (qtlua_emit_signal marshal marshallers).length

/-! ### Which cells are filled -/

/-- The loop fills one cell for each marshaller in front of the first null pointer. -/
theorem map_fst_emitLoop (i : Nat) (marshallers : List (Option Marshaller)) :
    (emitLoop marshal i marshallers).map Prod.fst = List.range' i (marshallers.takeWhile Option.isSome).length := by
  induction marshallers generalizing i with
  | nil => rfl
  | cons m rest ih =>
    rcases m with _ | marshaller
    · rfl
    · simp [emitLoop, ih, List.range'_succ]

theorem stores_lt_iff (marshallers : List (Option Marshaller)) (size : Nat) :
    (∀ store ∈ (qtlua_emit_signal marshal marshallers).stores, store.1 < size) ↔
      (marshallers.takeWhile Option.isSome).length < size := by
  have hcells : (qtlua_emit_signal marshal marshallers).stores.map Prod.fst =
      List.range' 0 ((marshallers.takeWhile Option.isSome).length + 1) := by
    rw [qtlua_emit_signal, List.map_cons, map_fst_emitLoop, List.range'_succ]
  exact cells_lt_iff hcells size

theorem takeWhile_isSome_length_iff (marshallers : List (Option Marshaller)) :
    (marshallers.takeWhile Option.isSome).length = marshallers.length ↔ none ∉ marshallers := by
  induction marshallers with
  | nil => simp
  | cons m rest ih => rcases m with _ | marshaller <;> simp [ih]

/-- The arguments stay in the array up to seven of them, and when a null pointer ends the loop. -/
theorem emission_in_array_iff (marshallers : List (Option Marshaller)) :
    (∀ store ∈ (qtlua_emit_signal marshal marshallers).stores,
        store.1 < (qtlua_emit_signal marshal marshallers).length) ↔
      marshallers.length ≤ 7 ∨ none ∈ marshallers := by
  have hlength : (qtlua_emit_signal marshal marshallers).length = max marshallers.length 8 := by
    simp only [qtlua_emit_signal]
    split <;> omega
  have hle := (List.takeWhile_sublist Option.isSome (l := marshallers)).length_le
  have hall := takeWhile_isSome_length_iff marshallers
  rw [hlength, stores_lt_iff marshal marshallers]
  by_cases hnone : none ∈ marshallers
  · have hne : (marshallers.takeWhile Option.isSome).length ≠ marshallers.length := fun heq => hall.mp heq hnone
    exact iff_of_true (by omega) (.inr hnone)
  · rw [hall.mpr hnone, or_iff_left hnone]
    omega

/-- Every store is in its buffer exactly if no name of a type fills one, and there are at most seven arguments or one of
them has no marshaller. -/
theorem inBuffers_iff (signature : CString) :
    InBuffers marshal signature ↔ (∀ t ∈ argumentNames signature, t.length < 80) ∧
      ((argumentNames signature).length ≤ 7 ∨ ∃ t ∈ argumentNames signature, Marshaller.get t = none) := by
  rw [InBuffers, bufferStores_lt_iff]
  refine and_congr_right fun hlen => ?_
  have hlist : get_marshalling_list signature = some ((argumentNames signature).map Marshaller.get) := by
    rw [get_marshalling_list, lookedUp_eq, if_pos hlen, Option.map_some]
  simp only [hlist, Option.some.injEq, forall_eq', emission_in_array_iff, List.length_map, List.mem_map]

/-- `f(int,int,int,int,int,int,int,int)` -/
def eightInts : CString := ofTypes ['f'] (List.replicate 8 ['i', 'n', 't'])

/-- The eighth argument is stored in cell 8 of the eight cells. -/
theorem eight_arguments_overflow : ¬ InBuffers (fun _ index => some index) eightInts := by
  intro h
  have hlist : get_marshalling_list eightInts = some (List.replicate 8 (some .int)) := by decide
  have hstore : (8, some 9) ∈
      (qtlua_emit_signal (fun _ index => some index) (List.replicate 8 (some .int))).stores := by decide
  exact absurd (h.2 _ hlist _ hstore) (by decide)

end Signature
end Atf
