import Atf.SchemaConforms

/-!
# Arrays are judged by their last element (`schema_validation.lua`)

The loop of `CheckTypesInArray` assigns the result of each element to the same variable, so only the last
element counts, here and in every array inside an element. What conforms with all elements looked at does so with
the last ones, so the checks refuse nothing that they should accept. A schema is well formed if its type names lead
to an interface, which is all that keeps the checks from raising.
-/

namespace Atf
open Lua

/-- The type of every parameter resolves. -/
structure Schema.WellFormed (schema : Schema) : Prop where
  struct : ∀ i ∈ schema, ∀ s ∈ i.2.struct, ∀ p ∈ s.2, schema.Resolves p.2.type
  function : ∀ i ∈ schema, ∀ type, ∀ f ∈ i.2.functions type, ∀ p ∈ f.2, schema.Resolves p.2.type

section Looked
variable {lib : ValueLib} {schema : Schema}

theorem elementsConform_all (entries : List (Key × Value)) (type : String) :
    elementsConform lib schema .all entries type = true ↔
      ∀ e ∈ entries, conforms lib schema .all e.2 type false = true := by
  induction entries with
  | nil => simp [elementsConform]
  | cons e entries ih => simp [elementsConform, ih]

theorem elementsConform_last : ∀ (entries : List (Key × Value)) (type : String),
    elementsConform lib schema .last entries type = true ↔
      ∀ e ∈ entries.getLast?, conforms lib schema .last e.2 type false = true
  | [], type => by simp [elementsConform]
  | [e], type => by simp [elementsConform]
  | e :: e' :: entries, type => by
    rw [elementsConform, elementsConform_last (e' :: entries) type, List.getLast?_cons_cons]

mutual

/-- What conforms with all elements looked at does so with the last ones. -/
theorem conforms_last_of_all : ∀ (data : Value) (type : String) (array : Bool),
    conforms lib schema .all data type array = true → conforms lib schema .last data type array = true
  | .table entries, type, true, h => by
    obtain ⟨harray, h⟩ := Bool.and_eq_true_iff.mp h
    exact Bool.and_eq_true_iff.mpr ⟨harray, elementsConform_last_of_all entries type h⟩
  | .table entries, type, false, h => by
    rw [conforms] at h ⊢
    split at h
    · rename_i params hkind
      exact paramsConform_last_of_all entries params h
    · cases h
  | .nil, _, _, h => h
  | .bool _, _, _, h => h
  | .num _, _, _, h => h
  | .str _, _, _, h => h

theorem elementsConform_last_of_all : ∀ (entries : List (Key × Value)) (type : String),
    elementsConform lib schema .all entries type = true → elementsConform lib schema .last entries type = true
  | [], _, _ => rfl
  | [(_, value)], type, h => by
    obtain ⟨hvalue, -⟩ := Bool.and_eq_true_iff.mp h
    exact Bool.and_eq_true_iff.mpr ⟨conforms_last_of_all value type false hvalue, rfl⟩
  | (_, value) :: e :: entries, type, h => elementsConform_last_of_all (e :: entries) type (Bool.and_eq_true_iff.mp h).2

theorem paramsConform_last_of_all : ∀ (entries : List (Key × Value)) (params : Params),
    paramsConform lib schema .all entries params = true → paramsConform lib schema .last entries params = true
  | [], _, _ => rfl
  | (key, value) :: entries, params, h => by
    rw [paramsConform] at h ⊢
    obtain ⟨hvalue, hrest⟩ := Bool.and_eq_true_iff.mp h
    rw [paramsConform_last_of_all entries params hrest, Bool.and_true]
    split at hvalue
    · cases hvalue
    · rename_i param hparam
      obtain ⟨hsize, hvalue⟩ := Bool.and_eq_true_iff.mp hvalue
      exact Bool.and_eq_true_iff.mpr ⟨hsize, conforms_last_of_all value _ _ hvalue⟩

end

end Looked

section Checks
variable {lib : ValueLib} {schema : Schema} {type : String}

/-- Every parameter of the list has a type that resolves. -/
def Schema.ResolvesAll (schema : Schema) (params : Params) : Prop := ∀ p ∈ params, schema.Resolves p.2.type

theorem Schema.ResolvesAll.paramOf {params : Params} (h : schema.ResolvesAll params) {key : Key} {param : Param}
    (hparam : paramOf params key = some param) : schema.Resolves param.type := by
  obtain ⟨name, hmem⟩ := mem_of_paramOf hparam
  exact h _ hmem

theorem Schema.WellFormed.kindOf (hw : schema.WellFormed) {params : Params}
    (hkind : schema.kindOf type = .struct params) :
    schema.ResolvesAll params := by
  unfold Schema.kindOf at hkind
  split at hkind
  · cases hkind
  split at hkind
  · cases hkind
  rename_i interface hinterface
  split at hkind
  · cases hkind
  · rename_i params' henum hstruct
    cases hkind
    obtain ⟨interfaceName, -, hget⟩ := Option.bind_eq_some_iff.mp hinterface
    obtain ⟨elemName, -, hmem⟩ := Option.bind_eq_some_iff.mp hstruct
    exact hw.struct _ (Dict.mem_of_get hget) _ (Dict.mem_of_get hmem)
  · cases hkind

mutual

/-- In a well-formed schema every type that is looked up is found. -/
theorem found_of_wellFormed (hw : schema.WellFormed) : ∀ (data : Value) {type : String}, schema.Resolves type →
    ∀ array : Bool, found lib schema data type array = true
  | .nil, _, hres, array => Bool.or_eq_true_iff.mpr (.inr (decide_eq_true hres))
  | .bool _, _, hres, array => Bool.or_eq_true_iff.mpr (.inr (decide_eq_true hres))
  | .num _, _, hres, array => Bool.or_eq_true_iff.mpr (.inr (decide_eq_true hres))
  | .str _, _, hres, array => Bool.or_eq_true_iff.mpr (.inr (decide_eq_true hres))
  | .table entries, _, hres, true => Bool.or_eq_true_iff.mpr (.inr (elementsFound_of_wellFormed hw entries hres))
  | .table entries, type, hres, false => by
    rw [found, decide_eq_true hres, Bool.true_and]
    split
    · rename_i params hkind
      exact paramsFound_of_wellFormed hw entries (hw.kindOf hkind)
    · rfl

theorem elementsFound_of_wellFormed (hw : schema.WellFormed) : ∀ (entries : List (Key × Value)) {type : String},
    schema.Resolves type → elementsFound lib schema entries type = true
  | [], _, _ => rfl
  | (_, value) :: entries, _, hres => Bool.and_eq_true_iff.mpr
    ⟨found_of_wellFormed hw value hres false, elementsFound_of_wellFormed hw entries hres⟩

theorem paramsFound_of_wellFormed (hw : schema.WellFormed) : ∀ (entries : List (Key × Value)) {params : Params},
    schema.ResolvesAll params → paramsFound lib schema entries params = true
  | [], _, _ => rfl
  | (key, value) :: entries, params, hres => by
    rw [paramsFound, paramsFound_of_wellFormed hw entries hres, Bool.and_true]
    split
    · rfl
    · rename_i param hparam
      exact found_of_wellFormed hw value (hres.paramOf hparam) _

end

/-- `CompareType` looks at the last elements. -/
theorem compareType_eq (hw : schema.WellFormed) (data : Value) (hres : schema.Resolves type) (array : Option String)
    (name : String) (nameOfStructure : Option String) :
    ∃ r, compareType lib schema data type array name nameOfStructure = .ok r ∧
      Judged lib (conforms lib schema .last data type (array = some "true")) r :=
  (compareType_spec data type array name nameOfStructure).of_found (found_of_wellFormed hw data hres _)

theorem Schema.WellFormed.functionParams (hw : schema.WellFormed) {interface : Interface}
    {interfaceName : Option String} (hinterface : interfaceOf schema interfaceName = .ok interface)
    {functionType : FunctionType} {functionName : Option FunctionRef} {params : Params}
    (hparams : functionParams interface functionType functionName = some params) : schema.ResolvesAll params := by
  unfold interfaceOf at hinterface
  split at hinterface
  · rename_i i hget
    cases hinterface
    obtain ⟨name, -, hget⟩ := Option.bind_eq_some_iff.mp hget
    unfold Atf.functionParams at hparams
    split at hparams
    · exact hw.function _ (Dict.mem_of_get hget) functionType _ (Dict.mem_of_get hparams)
    · cases hparams
  · cases hinterface

variable {functionId : FunctionRef} {functionType : FunctionType} {userData : Value} {entries : List (Key × Value)}
  {params : Params}

theorem Resolved.paramsFound (hw : schema.WellFormed)
    (h : Resolved schema functionId functionType userData entries params) :
    paramsFound lib schema entries params = true := by
  obtain ⟨f, data, interface, -, -, hinterface, hparams⟩ := h
  exact paramsFound_of_wellFormed hw entries (hw.functionParams hinterface hparams)

/-- The check of an array, and with it `Compare` and `Validate`, says whether every element conforms exactly if
the elements do so whenever the last one does, with the arrays inside it judged by their last elements again. -/
theorem array_check_iff (lib : ValueLib) {schema : Schema} (hw : schema.WellFormed) :
    (∀ type, schema.Resolves type → ∀ entries, isArray lib (.table entries) = true → ∀ name nameOfStructure,
      ∃ r message, compareType lib schema (.table entries) type (some "true") name nameOfStructure = .ok (r, message) ∧
        ((r = true ↔ ∀ e ∈ entries, conforms lib schema .all e.2 type false = true) ↔
          ((∀ e ∈ entries.getLast?, conforms lib schema .last e.2 type false = true) →
            ∀ e ∈ entries, conforms lib schema .all e.2 type false = true))) ∧
    ∀ functionId functionType userData entries params, Resolved schema functionId functionType userData entries params →
      (∃ r messages data, compare lib schema (some functionId) functionType userData = .ok (r, messages, data) ∧
        ((r = true ↔ paramsConform lib schema .all entries params = true) ↔
          (paramsConform lib schema .last entries params = true →
            paramsConform lib schema .all entries params = true))) ∧
      ∃ r text data, validate lib schema true (some functionId) functionType userData = .ok (r, text, data) ∧
        ((r = true ↔ paramsConform lib schema .all entries params = true) ↔
          (paramsConform lib schema .last entries params = true →
            paramsConform lib schema .all entries params = true)) := by
  constructor
  · intro type hres entries harray name nameOfStructure
    obtain ⟨⟨r, message⟩, hcompare, hr, -⟩ := compareType_eq hw (.table entries) hres (some "true") name nameOfStructure
    refine ⟨r, message, hcompare, ?_⟩
    have hlast : r = elementsConform lib schema .last entries type := by
      rw [decide_eq_true rfl, conforms, harray, Bool.true_and] at hr
      exact hr
    rw [hlast, ← elementsConform_all, ← elementsConform_last]
    exact ⟨Iff.mp, fun h => ⟨h, elementsConform_last_of_all entries type⟩⟩
  · intro functionId functionType userData entries params h
    have hlast : paramsConform lib schema .all entries params = true →
        paramsConform lib schema .last entries params = true :=
      paramsConform_last_of_all entries params
    obtain ⟨⟨r, messages, data⟩, hcompare, hr, -⟩ := (compare_spec lib h).of_found (h.paramsFound hw)
    obtain ⟨⟨r', text, data'⟩, hvalidate, hr'⟩ := (validate_spec lib h).of_found (h.paramsFound hw)
    dsimp only at hr hr'
    subst hr hr'
    exact ⟨⟨_, _, data, hcompare, Iff.mp, fun h => ⟨h, hlast⟩⟩, _, text, data', hvalidate, Iff.mp, fun h => ⟨h, hlast⟩⟩

end Checks

/-! ### Example: an array of texts -/

namespace ArraySample

def lib : ValueLib := ⟨fun n => toString n.num, fun entries => entries.all fun e => e.1 matches .int _⟩

def sliderFooter : Param :=
  { type := "String", mandatory := some "false", array := some "true", minsize := some 1, maxsize := some 26 }

def schema : Schema :=
  [("SmartDeviceLink RAPI",
    { functions := fun
        | .request => [("Slider", [("sliderFooter", sliderFooter)])]
        | _ => []
      enum := [], struct := [] })]

theorem wellFormed : schema.WellFormed := by
  refine ⟨fun i hi s hs => ?_, fun i hi type f hf p hp => ?_⟩
  · rw [List.mem_singleton.mp hi] at hs
    cases hs
  · rw [List.mem_singleton.mp hi] at hf
    cases type with
    | request =>
      rw [List.mem_singleton.mp hf] at hp
      rw [List.mem_singleton.mp hp]
      exact .inl rfl
    | response => cases hf
    | notification => cases hf

/-- A number stands first, where texts are asked for. -/
def entries : List (Key × Value) := [(.int 1, .num 1), (.int 2, .str "high")]

end ArraySample

open ArraySample in
theorem array_check_iff_sliderFooter :
    ∃ r message, compareType lib schema (.table entries) "String" (some "true") "sliderFooter" none = .ok (r, message) ∧
      ((r = true ↔ ∀ e ∈ entries, conforms lib schema .all e.2 "String" false = true) ↔
        ((∀ e ∈ entries.getLast?, conforms lib schema .last e.2 "String" false = true) →
          ∀ e ∈ entries, conforms lib schema .all e.2 "String" false = true)) :=
  (array_check_iff lib wellFormed).1 "String" (.inl rfl) entries rfl "sliderFooter" none

open ArraySample in
/-- The array is accepted, by its check and by `Validate`. -/
theorem first_element_unchecked :
    (compareType lib schema (.table entries) "String" (some "true") "sliderFooter" none).map (·.1) = .ok true ∧
      (validate lib schema true (some (.name "Slider")) .request
        (.table [(.str "sliderFooter", .table entries)])).map (·.1) = .ok true ∧
      ¬ ∀ e ∈ entries, conforms lib schema .all e.2 "String" false = true := by
  refine ⟨rfl, rfl, ?_⟩
  decide +kernel

end Atf
