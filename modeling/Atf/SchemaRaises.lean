import Atf.SchemaConforms

/-!
# When `Validate` raises (`schema_validation.lua`)

`Validate` looks up what it is given without asking whether it is there: the interface that the function id names,
the interface of each type along the data, and, for a function that exists, the entries of the data and the messages
about them. The name `WrongFunctionName` has the result code written into the data first. Whatever leads to a table at
each of these places is answered, and everything else raises.
-/

namespace Atf
open Lua

section Raises
variable {lib : ValueLib} {schema : Schema} {functionId : FunctionRef} {functionType : FunctionType} {userData : Value}

/-- The data of `WrongFunctionName` is a table, the function id leads to an interface, and if the interface has the
function, the data is a table or missing and every type that is looked up for it is found. -/
structure Answerable (lib : ValueLib) (schema : Schema) (functionId : FunctionRef) (functionType : FunctionType)
    (userData : Value) : Prop where
  generic : functionId = .name "WrongFunctionName" → ∃ entries, userData = .table entries
  interface : ∀ f data, resolveFunction functionId userData = .ok (f, data) →
    ((functionNames f schema).1.bind schema.get).isSome = true
  data : ∀ f data interface params, resolveFunction functionId userData = .ok (f, data) →
    (functionNames f schema).1.bind schema.get = some interface →
    functionParams interface functionType (functionNames f schema).2 = some params →
    ∃ entries, compare.orEmpty data = .table entries ∧ paramsFound lib schema entries params = true

theorem resolveFunction_ok_iff :
    (∃ r, resolveFunction functionId userData = .ok r) ↔
      (functionId = .name "WrongFunctionName" → ∃ entries, userData = .table entries) := by
  unfold resolveFunction
  split
  · rename_i hwrong
    cases userData with
    | table entries => simp
    | _ => simp [hwrong]
  · rename_i hother
    simp [hother]

theorem interfaceOf_eq_ok {name : Option String} {interface : Interface} :
    interfaceOf schema name = .ok interface ↔ name.bind schema.get = some interface := by
  unfold interfaceOf
  split
  · rename_i i hget
    rw [hget, Except.ok.injEq, Option.some.injEq]
  · rename_i hget
    rw [hget]
    simp

section Compare
variable {f : FunctionRef} {data : Value} {interface : Interface}

/-- A function that the interface does not have is answered with a message. -/
theorem compare_unknown (lib : ValueLib) (hresolve : resolveFunction functionId userData = .ok (f, data))
    (hinterface : interfaceOf schema (functionNames f schema).1 = .ok interface)
    (hparams : functionParams interface functionType (functionNames f schema).2 = none) :
    ∃ text, compare lib schema (some functionId) functionType userData =
      .ok (false, .table [(messageKey schema f, .str text)], data) := by
  rw [compare_eq lib hresolve, hinterface]
  dsimp only [bind, Except.bind]
  rw [compareIn, hparams]
  exact ⟨_, rfl⟩

/-- A function that it has, with data that is neither a table nor missing, raises. -/
theorem compare_scalar (lib : ValueLib) {params : Params}
    (hresolve : resolveFunction functionId userData = .ok (f, data))
    (hinterface : interfaceOf schema (functionNames f schema).1 = .ok interface)
    (hparams : functionParams interface functionType (functionNames f schema).2 = some params)
    (hdata : ∀ entries, compare.orEmpty data ≠ .table entries) :
    ∃ e, compare lib schema (some functionId) functionType userData = .error e := by
  have hcheck : checkFunctionParams lib schema params (compare.orEmpty data) =
      .error "bad argument to 'pairs' (table expected, got nil)" := by
    rw [checkFunctionParams, checkTypeOfParam]
    · rfl
    · exact hdata
  rw [compare_eq lib hresolve, hinterface]
  dsimp only [bind, Except.bind]
  rw [compareIn, hparams]
  dsimp only
  rw [hcheck]
  exact ⟨_, rfl⟩

/-- A function id that leads to no interface raises. -/
theorem compare_noInterface (lib : ValueLib) (hresolve : resolveFunction functionId userData = .ok (f, data))
    (hinterface : (functionNames f schema).1.bind schema.get = none) :
    ∃ e, compare lib schema (some functionId) functionType userData = .error e := by
  rw [compare_eq lib hresolve, interfaceOf, hinterface]
  exact ⟨_, rfl⟩

end Compare

/-- `Validate` returns what `Compare` does, or raises with it. -/
theorem validate_of_error {e : String} (h : compare lib schema (some functionId) functionType userData = .error e) :
    validate lib schema true (some functionId) functionType userData = .error e := by
  rw [validate, if_pos rfl, h]
  rfl

theorem validate_of_answerable (h : Answerable lib schema functionId functionType userData) :
    ∃ r, validate lib schema true (some functionId) functionType userData = .ok r := by
  obtain ⟨⟨f, data⟩, hresolve⟩ := resolveFunction_ok_iff.mpr h.generic
  obtain ⟨interface, hget⟩ := Option.isSome_iff_exists.mp (h.interface f data hresolve)
  have hinterface := interfaceOf_eq_ok.mpr hget
  cases hparams : functionParams interface functionType (functionNames f schema).2 with
  | none =>
    obtain ⟨text, hcompare⟩ := compare_unknown lib hresolve hinterface hparams
    obtain ⟨texts, htexts⟩ : ∃ texts, errorMsgsToString lib [(messageKey schema f, .str text)] = .ok texts := by
      refine AllPrint.errorMsgsToString fun e he => ?_
      rw [List.mem_singleton.mp he]
      exact prints_str text
    refine ⟨(false, texts, data), ?_⟩
    rw [validate, if_pos rfl, hcompare]
    dsimp only [bind, Except.bind]
    rw [errorMsgToString, htexts]
    rfl
  | some params =>
    obtain ⟨entries, hentries, hfound⟩ := h.data f data interface params hresolve hget hparams
    have hresolved : Resolved schema functionId functionType userData entries params :=
      ⟨f, data, interface, hresolve, hentries, hinterface, hparams⟩
    obtain ⟨r, hr, -⟩ := (validate_spec lib hresolved).of_found hfound
    exact ⟨r, hr⟩

theorem answerable_of_validate {r : Bool × String × Value}
    (h : validate lib schema true (some functionId) functionType userData = .ok r) :
    Answerable lib schema functionId functionType userData := by
  have hcompare : ¬ ∃ e, compare lib schema (some functionId) functionType userData = .error e := by
    rintro ⟨e, he⟩
    rw [validate_of_error he] at h
    cases h
  refine ⟨resolveFunction_ok_iff.mp ?_, fun f data hresolve => ?_,
    fun f data interface params hresolve hget hparams => ?_⟩
  · cases hresolve : resolveFunction functionId userData with
    | ok r => exact ⟨r, rfl⟩
    | error e =>
      refine absurd ⟨e, ?_⟩ hcompare
      rw [compare, hresolve]
      rfl
  · rw [Option.isSome_iff_ne_none]
    exact fun hnone => hcompare (compare_noInterface lib hresolve hnone)
  · have hinterface := interfaceOf_eq_ok.mpr hget
    obtain ⟨entries, hentries⟩ : ∃ entries, compare.orEmpty data = .table entries := by
      by_contra hdata
      exact hcompare (compare_scalar lib hresolve hinterface hparams (not_exists.mp hdata))
    refine ⟨entries, hentries, ?_⟩
    rcases compare_spec lib ⟨f, data, interface, hresolve, hentries, hinterface, hparams⟩ with ⟨hfound, -⟩ | ⟨-, he⟩
    · exact hfound
    · exact absurd he hcompare

/-- `Validate` returns a result and a text exactly if validation is off or what it is given is answerable. -/
theorem validate_returns_iff (lib : ValueLib) (schema : Schema) (validateSchema : Bool) (functionId : FunctionRef)
    (functionType : FunctionType) (userData : Value) :
    (∃ result text data, validate lib schema validateSchema (some functionId) functionType userData =
        .ok (result, text, data)) ↔
      (validateSchema = true → Answerable lib schema functionId functionType userData) := by
  cases validateSchema with
  | false => exact ⟨fun _ => nofun, fun _ => ⟨true, "", userData, rfl⟩⟩
  | true =>
    constructor
    · rintro ⟨result, text, data, h⟩ -
      exact answerable_of_validate h
    · intro h
      obtain ⟨⟨result, text, data⟩, hr⟩ := validate_of_answerable (h rfl)
      exact ⟨result, text, data, hr⟩

end Raises

/-! ### Example: what a test may give -/

namespace RaiseSample

def lib : ValueLib := ⟨fun n => toString n.num, fun entries => entries.all fun e => e.1 matches .int _⟩

def schema : Schema :=
  [("UI",
    { functions := fun
        | .request => [("Alert", [("duration", { type := "Integer", mandatory := some "true", array := none })])]
        | _ => []
      enum := [], struct := [] })]

end RaiseSample

open RaiseSample in
/-- An interface that is not in the schema, a scalar where the parameters stand, and no data for the generic
response. -/
theorem validate_raises :
    validate lib schema true (some (.name "VR.Alert")) .request (.table []) = .error "attempt to index a nil value" ∧
      validate lib schema true (some (.name "UI.Alert")) .request (.num 5) =
        .error "bad argument to 'pairs' (table expected, got nil)" ∧
      validate lib schema true (some (.name "WrongFunctionName")) .response .nil =
        .error "attempt to index a nil value" :=
  ⟨rfl, rfl, rfl⟩

end Atf
