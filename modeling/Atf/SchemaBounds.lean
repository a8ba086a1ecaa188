import Atf.SchemaConforms

/-!
# Bounds of the leaves (`schema_validation.lua`)

`CheckValue` and `CheckLength` are to compare a number with `minvalue` and `maxvalue` and a text with `minlength` and
`maxlength`. `CheckTypeOfParam` hands `CompareType` the type of the parameter and not the parameter, so the two look
for the bounds in a type name, where there are none. Nothing is refused for its bounds: data that the checks accept
is within them only if it was so before.
-/

namespace Atf
open Lua

def between (x : Rat) (min max : Option Rat) : Bool := min.all (· ≤ x) && max.all (x ≤ ·)

mutual

/-- Every number and every text of the value is within the bounds of its parameter: the parameter itself, also for
the elements of an array, and inside of a structure the parameters that the structure declares. -/
def leavesWithin (schema : Schema) : Value → Param → (array : Bool) → Bool
  | .num n, param, _ => between n param.minvalue param.maxvalue
  | .str s, param, _ => between s.utf8ByteSize param.minlength param.maxlength
  | .table entries, param, true => elementsWithin schema entries param
  | .table entries, param, false =>
    match schema.kindOf param.type with
    | .struct params => paramsWithin schema entries params
    | _ => true
  | _, _, _ => true

def elementsWithin (schema : Schema) : List (Key × Value) → Param → Bool
  | [], _ => true
  | (_, value) :: entries, param => leavesWithin schema value param false && elementsWithin schema entries param

def paramsWithin (schema : Schema) : List (Key × Value) → Params → Bool
  | [], _ => true
  | (key, value) :: entries, params =>
    (match paramOf params key with
      | none => true
      | some param => leavesWithin schema value param (param.array = some "true")) &&
      paramsWithin schema entries params

end

/-- What `Validate` accepts is within the bounds exactly if every leaf is so to begin with, or a type that is
looked up is not found, or the types, the keys and the sizes of the arrays are not right, as the checks see them. -/
theorem validate_bounds_iff (lib : ValueLib) (schema : Schema) (functionId : FunctionRef) (functionType : FunctionType)
    (userData : Value) :
    (∀ text data, validate lib schema true (some functionId) functionType userData = .ok (true, text, data) →
        ∀ entries params, Resolved schema functionId functionType userData entries params →
          paramsWithin schema entries params = true) ↔
      ∀ entries params, Resolved schema functionId functionType userData entries params →
        paramsWithin schema entries params = true ∨ paramsFound lib schema entries params = false ∨
          paramsConform lib schema .last entries params = false := by
  constructor
  · intro h entries params hresolved
    rcases validate_spec lib hresolved with ⟨-, ⟨result, text, data⟩, hvalidate, hresult⟩ | ⟨hfound, -⟩
    · cases hconform : paramsConform lib schema .last entries params with
      | false => exact .inr (.inr rfl)
      | true =>
        rw [hconform] at hresult
        dsimp only at hresult
        subst hresult
        exact .inl (h text data hvalidate entries params hresolved)
    · exact .inr (.inl hfound)
  · intro h text data hvalidate entries params hresolved
    rcases validate_spec lib hresolved with ⟨hfound, r, hr, hresult⟩ | ⟨-, e, he⟩
    · rw [hvalidate, Except.ok.injEq] at hr
      subst hr
      rcases h entries params hresolved with hwithin | hnot | hnot
      · exact hwithin
      · rw [hfound] at hnot
        cases hnot
      · rw [← hresult] at hnot
        cases hnot
    · rw [hvalidate] at he
      cases he

/-! ### Example: a number and a text out of bounds -/

namespace BoundSample

def lib : ValueLib := ⟨fun n => toString n.num, fun entries => entries.all fun e => e.1 matches .int _⟩

def params : Params :=
  [("duration", { type := "Integer", mandatory := some "false", array := none, minvalue := some 3000,
                  maxvalue := some 10000 }),
   ("alertText", { type := "String", mandatory := some "false", array := none, minlength := some 1,
                   maxlength := some 5 })]

def schema : Schema :=
  [("UI",
    { functions := fun
        | .request => [("Alert", params)]
        | _ => []
      enum := [], struct := [] })]

def entries : List (Key × Value) := [(.str "duration", .num 20000), (.str "alertText", .str "too long")]

end BoundSample

open BoundSample in
/-- The request is accepted. -/
theorem out_of_bounds_accepted :
    (∃ text data, validate lib schema true (some (.name "Alert")) .request (.table entries) = .ok (true, text, data)) ∧
      Resolved schema (.name "Alert") .request (.table entries) entries params ∧
      paramsWithin schema [(.str "duration", .num 20000)] params = false ∧
      paramsWithin schema [(.str "alertText", .str "too long")] params = false ∧
      paramsWithin schema entries params = false :=
  ⟨⟨_, _, rfl⟩, ⟨_, _, _, rfl, rfl, rfl, rfl⟩, by decide +kernel⟩

end Atf
