import Atf.SchemaValidation

/-!
# What the schema checks compute (`schema_validation.lua`)

`conforms` says what a value of a type is, for an array with all of its elements looked at or only the last: with
`.all` it is what the schema asks for, with `.last` it is what the checks compute, as the loop over an array keeps
the result of its last element. Looking up a type that leads to no interface raises; `found` says that this happens
to no type that is looked up for the value, and then the checks return (`compareType_spec`).
-/

namespace Atf
open Lua

/-! ### What the schema asks for -/

inductive TypeKind
  | base
  | enum (elements : Dict String Rat)
  | struct (params : Params)
  | unknown

def Schema.kindOf (schema : Schema) (type : String) : TypeKind :=
  if isBaseType type then .base
  else
    match (getNames type schema).1.bind schema.get with
    | none => .unknown
    | some interface =>
      match (getNames type schema).2.bind interface.enum.get, (getNames type schema).2.bind interface.struct.get with
      | some elements, _ => .enum elements
      | none, some params => .struct params
      | none, none => .unknown

def Schema.Resolves (schema : Schema) (type : String) : Prop :=
  isBaseType type = true ∨ ((getNames type schema).1.bind schema.get).isSome

/-- The elements of an array that are looked at. -/
inductive Looked
  | all | last
deriving DecidableEq

/-- A value that is no table; a number may stand for an element of any enumeration. -/
def scalarConforms (schema : Schema) (data : Value) (type : String) : Bool :=
  match schema.kindOf type, data with
  | .base, .num _ => type ∈ ["Integer", "Float", "Double"]
  | .base, .str _ => type = "String"
  | .base, .bool _ => type = "Boolean"
  | .enum _, .num _ => true
  | .enum elements, .str s => (elements.get s).isSome
  | _, _ => false

def sizeConforms (param : Param) (size : Nat) : Bool :=
  param.minsize.all (· ≤ (size : Rat)) && param.maxsize.all ((size : Rat) ≤ ·)

mutual

/-- A value of the type, or an array of such values. -/
def conforms (lib : ValueLib) (schema : Schema) (looked : Looked) : Value → (type : String) → (array : Bool) → Bool
  | .table entries, type, true => isArray lib (.table entries) && elementsConform lib schema looked entries type
  | .table entries, type, false =>
    match schema.kindOf type with
    | .struct params => paramsConform lib schema looked entries params
    | _ => false
  | data, type, array => !array && scalarConforms schema data type

def elementsConform (lib : ValueLib) (schema : Schema) (looked : Looked) : List (Key × Value) → (type : String) → Bool
  | [], _ => true
  | (_, value) :: entries, type =>
    match looked, entries with
    | .last, _ :: _ => elementsConform lib schema looked entries type
    | _, _ => conforms lib schema looked value type false && elementsConform lib schema looked entries type

/-- Every entry is a parameter and its value is one, or an array of the right size. -/
def paramsConform (lib : ValueLib) (schema : Schema) (looked : Looked) : List (Key × Value) → Params → Bool
  | [], _ => true
  | (key, value) :: entries, params =>
    (match paramOf params key with
      | none => false
      | some param =>
        (param.array ≠ some "true" || sizeConforms param (countInArray value)) &&
          conforms lib schema looked value param.type (param.array = some "true")) &&
      paramsConform lib schema looked entries params

end

theorem mem_of_paramOf {params : Params} {key : Key} {param : Param} (h : paramOf params key = some param) :
    ∃ name, (name, param) ∈ params := by
  cases key with
  | int i => cases h
  | str s => exact ⟨s, Dict.mem_of_get h⟩

/-! ### Types that are looked up -/

instance (schema : Schema) (type : String) : Decidable (schema.Resolves type) := inferInstanceAs (Decidable (_ ∨ _))

mutual

/-- Every type that is looked up for the value leads to an interface. -/
def found (lib : ValueLib) (schema : Schema) : Value → (type : String) → (array : Bool) → Bool
  | .table entries, type, true => !isArray lib (.table entries) || elementsFound lib schema entries type
  | .table entries, type, false =>
    decide (schema.Resolves type) &&
      match schema.kindOf type with
      | .struct params => paramsFound lib schema entries params
      | _ => true
  | _, type, array => array || decide (schema.Resolves type)

def elementsFound (lib : ValueLib) (schema : Schema) : List (Key × Value) → (type : String) → Bool
  | [], _ => true
  | (_, value) :: entries, type => found lib schema value type false && elementsFound lib schema entries type

def paramsFound (lib : ValueLib) (schema : Schema) : List (Key × Value) → Params → Bool
  | [], _ => true
  | (key, value) :: entries, params =>
    (match paramOf params key with
      | none => true
      | some param => found lib schema value param.type (param.array = some "true")) &&
      paramsFound lib schema entries params

end

/-! ### Messages -/

/-- The message can be put in a text: a table of such messages, or a line. -/
def Prints (lib : ValueLib) (v : Value) : Prop :=
  ∃ text, (if v.type = "table" then errorMsgToString lib v else messageLine lib v) = .ok text

/-- All the messages of a table. -/
def AllPrint (lib : ValueLib) (entries : List (Key × Value)) : Prop := ∀ e ∈ entries, Prints lib e.2

section Messages
variable {lib : ValueLib}

theorem prints_str (s : String) : Prints lib (.str s) := ⟨_, rfl⟩

theorem AllPrint.nil : AllPrint lib [] := nofun

theorem AllPrint.append {entries entries' : List (Key × Value)} (h : AllPrint lib entries)
    (h' : AllPrint lib entries') : AllPrint lib (entries ++ entries') := by
  intro e he
  rcases List.mem_append.mp he with he | he
  · exact h e he
  · exact h' e he

theorem AllPrint.messageEntry (k : Key) {m : Message} (h : ∀ v ∈ m, Prints lib v) :
    AllPrint lib (messageEntry k m) := by
  intro e he
  obtain ⟨v, hv, rfl⟩ := List.mem_map.mp he
  exact h v (Option.mem_toList.mp hv)

theorem AllPrint.set {entries : Dict Key Value} (k : Key) {v : Value} (h : AllPrint lib entries) (hv : Prints lib v) :
    AllPrint lib (entries.set k v) := by
  induction entries with
  | nil =>
    intro e he
    rw [List.mem_singleton.mp he]
    exact hv
  | cons p entries ih =>
    have htail : AllPrint lib entries := fun e he => h e (List.mem_cons_of_mem p he)
    intro e he
    rw [Dict.set] at he
    split at he
    · rcases List.mem_cons.mp he with rfl | he
      · exact hv
      · exact htail e he
    · rcases List.mem_cons.mp he with rfl | he
      · exact h _ List.mem_cons_self
      · exact ih htail e he

theorem AllPrint.errorMsgsToString {entries : List (Key × Value)} (h : AllPrint lib entries) :
    ∃ text, errorMsgsToString lib entries = .ok text := by
  induction entries with
  | nil => exact ⟨"", rfl⟩
  | cons e entries ih =>
    obtain ⟨text, htext⟩ := h e List.mem_cons_self
    obtain ⟨texts, htexts⟩ := ih fun e' he' => h e' (List.mem_cons_of_mem e he')
    refine ⟨text ++ texts, ?_⟩
    rw [Atf.errorMsgsToString, htexts]
    split at htext
    · rename_i htable
      rw [if_pos htable, htext]
      rfl
    · rename_i htable
      rw [if_neg htable, htext]
      rfl

theorem AllPrint.table {entries : List (Key × Value)} (h : AllPrint lib entries) : Prints lib (.table entries) := by
  obtain ⟨text, htext⟩ := h.errorMsgsToString
  exact ⟨text, htext⟩

theorem allPrint_mandatoryMessages (params : Params) (entries : Dict Key Value) (nameOfStructure : Option String) :
    AllPrint lib (mandatoryMessages params entries nameOfStructure) := by
  unfold mandatoryMessages
  refine List.foldlRecOn params _ AllPrint.nil fun messages h ⟨key, param⟩ _ => ?_
  dsimp only
  split
  · exact h.set _ (prints_str _)
  · exact h

end Messages

/-! ### What the checks compute -/

/-- A result with this verdict and a message that can be printed. -/
def Judged (lib : ValueLib) (verdict : Bool) (r : Bool × Message) : Prop := r.1 = verdict ∧ ∀ v ∈ r.2, Prints lib v

section Checks
variable {lib : ValueLib} {schema : Schema} {type : String}

theorem judged_silent (verdict : Bool) : Judged lib verdict (verdict, none) := ⟨rfl, nofun⟩

theorem judged_message (verdict : Bool) {v : Value} (hv : Prints lib v) : Judged lib verdict (verdict, some v) := by
  refine ⟨rfl, fun v' hv' => ?_⟩
  rw [← Option.mem_some.mp hv']
  exact hv

theorem judged_mismatch (nameOfStructure : Option String) (name got expected : String) :
    Judged lib false (mismatch nameOfStructure name got expected) :=
  judged_message false (prints_str _)

theorem judged_ite (p : Prop) [Decidable p] (nameOfStructure : Option String) (name got expected : String) :
    Judged lib (decide p) (if p then (true, none) else mismatch nameOfStructure name got expected) := by
  split
  · rename_i hp
    rw [decide_eq_true hp]
    exact judged_silent true
  · rename_i hp
    rw [decide_eq_false hp]
    exact judged_mismatch ..

theorem judged_compareBase (hkind : schema.kindOf type = .base) (data : Value) (name : String)
    (nameOfStructure : Option String) :
    Judged lib (scalarConforms schema data type) (compareBase lib data type name nameOfStructure) := by
  unfold scalarConforms compareBase
  rw [hkind]
  cases data with
  | nil => exact judged_mismatch ..
  | bool b => exact judged_ite ..
  | num n => exact judged_ite ..
  | str s => exact judged_ite ..
  | table entries => exact judged_mismatch ..

theorem judged_compareEnum {elements : Dict String Rat} (hkind : schema.kindOf type = .enum elements) (data : Value)
    (name : String) (nameOfStructure : Option String) :
    Judged lib (scalarConforms schema data type) (compareEnum lib data elements type name nameOfStructure) := by
  unfold scalarConforms compareEnum
  rw [hkind]
  cases data with
  | nil => exact judged_mismatch ..
  | bool b => exact judged_mismatch ..
  | num n =>
    dsimp only
    split
    · exact judged_silent true
    · exact judged_message true (prints_str _)
  | str s =>
    dsimp only
    cases hget : elements.get s with
    | none => exact judged_mismatch ..
    | some n => exact judged_silent true
  | table entries => exact judged_mismatch ..

theorem violated_eq_none_iff (param : Param) (size : Nat) :
    violated size param.minsize param.maxsize = none ↔ sizeConforms param size = true := by
  unfold violated sizeConforms
  cases param.minsize <;> cases param.maxsize <;> simp [Option.filter] <;> grind

theorem allPrint_warning (name attr : String) (bound : Option Rat) :
    AllPrint lib (checkArray.warning name attr bound) := by
  intro e he
  unfold checkArray.warning at he
  split at he
  · cases he
  · rw [List.mem_singleton.mp he]
    exact prints_str _

theorem judged_checkArray (data : Value) (param : Param) (name : String) :
    Judged lib (isArray lib data && sizeConforms param (countInArray data)) (checkArray lib data param name) := by
  unfold checkArray
  cases isArray lib data with
  | false => exact judged_silent false
  | true =>
    rw [if_pos rfl, Bool.true_and]
    dsimp only
    cases hviolated : violated (countInArray data) param.minsize param.maxsize with
    | none =>
      rw [(violated_eq_none_iff param _).mp hviolated]
      exact judged_message true (AllPrint.table ((allPrint_warning name _ _).append (allPrint_warning name _ _)))
    | some violation =>
      have hsize : sizeConforms param (countInArray data) = false := by
        rw [← Bool.not_eq_true, ← violated_eq_none_iff, hviolated]
        exact nofun
      rw [hsize]
      rcases violation with ⟨_ | _, m⟩
      · exact judged_message false (prints_str _)
      · exact judged_message false (prints_str _)

theorem isBaseType_of_kindOf (hkind : schema.kindOf type = .base) : isBaseType type = true := by
  unfold Schema.kindOf at hkind
  split at hkind
  · assumption
  split at hkind
  · cases hkind
  split at hkind
  · cases hkind
  · cases hkind
  · cases hkind

theorem scalarConforms_of_struct {params : Params} (hkind : schema.kindOf type = .struct params) (data : Value) :
    scalarConforms schema data type = false := by
  unfold scalarConforms
  rw [hkind]

theorem scalarConforms_of_unknown (hkind : schema.kindOf type = .unknown) (data : Value) :
    scalarConforms schema data type = false := by
  unfold scalarConforms
  rw [hkind]

/-- The lookups of `CompareType` find the kind of the type. -/
theorem lookup_eq (hres : schema.Resolves type) (hbase : ¬ isBaseType type = true) {α : Type}
    (onEnum : Dict String Rat → LuaM α) (onStruct : Params → LuaM α) (other : LuaM α) :
    (do let (interfaceName, elemName) := getNames type schema
        let interface ← interfaceOf schema interfaceName
        match elemName.bind interface.enum.get, elemName.bind interface.struct.get with
        | some elements, _ => onEnum elements
        | none, some params => onStruct params
        | none, none => other) =
      match schema.kindOf type with
      | .enum elements => onEnum elements
      | .struct params => onStruct params
      | _ => other := by
  rcases hres with hres | hres
  · exact absurd hres hbase
  obtain ⟨interface, hinterface⟩ := Option.isSome_iff_exists.mp hres
  rw [Schema.kindOf, if_neg hbase]
  rcases hnames : getNames type schema with ⟨interfaceName, elemName⟩
  rw [hnames] at hinterface
  dsimp only at hinterface ⊢
  rw [interfaceOf, hinterface]
  dsimp only [bind, Except.bind]
  cases elemName.bind interface.enum.get with
  | some elements => rfl
  | none =>
    cases elemName.bind interface.struct.get with
    | some params => rfl
    | none => rfl

theorem compareType_scalar_eq (hres : schema.Resolves type) (hbase : ¬ isBaseType type = true) {data : Value}
    (hdata : ∀ entries, data ≠ .table entries) {array : Option String} (harray : array ≠ some "true") (name : String)
    (nameOfStructure : Option String) :
    compareType lib schema data type array name nameOfStructure =
      match schema.kindOf type with
      | .enum elements => .ok (compareEnum lib data elements type name nameOfStructure)
      | .struct _ => .ok (mismatch nameOfStructure name data.type ("struct: " ++ type))
      | _ => .ok (mismatch nameOfStructure name data.type type) := by
  rw [compareType, if_neg harray, if_neg hbase]
  · exact lookup_eq hres hbase _ _ _
  · exact hdata

theorem compareType_table_eq (hres : schema.Resolves type) (hbase : ¬ isBaseType type = true)
    (entries : List (Key × Value)) {array : Option String} (harray : array ≠ some "true") (name : String)
    (nameOfStructure : Option String) :
    compareType lib schema (.table entries) type array name nameOfStructure =
      match schema.kindOf type with
      | .enum elements => .ok (compareEnum lib (.table entries) elements type name nameOfStructure)
      | .struct params => do
        let (result, messages) ← compareParams lib schema entries params (some (qualified nameOfStructure name)) true
          (mandatoryMessages params entries (some (qualified nameOfStructure name)))
        return (result, some (.table messages))
      | _ => .ok (mismatch nameOfStructure name "table" type) := by
  rw [compareType, if_neg harray, if_neg hbase]
  exact lookup_eq hres hbase _ _ _

/-- The check returns a result as `P` says if the types are found, and raises otherwise. -/
def Settles {α : Type} (found : Bool) (x : LuaM α) (P : α → Prop) : Prop :=
  found = true ∧ (∃ a, x = .ok a ∧ P a) ∨ found = false ∧ ∃ e, x = .error e

theorem Settles.ok {α : Type} {a : α} {P : α → Prop} (h : P a) : Settles true (.ok a) P := .inl ⟨rfl, a, rfl, h⟩

theorem Settles.bind {α β : Type} {f g : Bool} {x : LuaM α} {k : α → LuaM β} {P : α → Prop} {Q : β → Prop}
    (hx : Settles f x P) (hk : ∀ a, P a → Settles g (k a) Q) : Settles (f && g) (x >>= k) Q := by
  rcases hx with ⟨rfl, a, rfl, ha⟩ | ⟨rfl, e, rfl⟩
  · rw [Bool.true_and]
    exact hk a ha
  · exact .inr ⟨Bool.false_and g, e, rfl⟩

theorem Settles.of_found {α : Type} {f : Bool} {x : LuaM α} {P : α → Prop} (h : Settles f x P) (hf : f = true) :
    ∃ a, x = .ok a ∧ P a := by
  rcases h with ⟨-, h⟩ | ⟨hf', -⟩
  · exact h
  · rw [hf] at hf'
    cases hf'

theorem Settles.mono {α : Type} {f : Bool} {x : LuaM α} {P Q : α → Prop} (h : Settles f x P) (hPQ : ∀ a, P a → Q a) :
    Settles f x Q := by
  rcases h with ⟨hf, a, hx, ha⟩ | h
  · exact .inl ⟨hf, a, hx, hPQ a ha⟩
  · exact .inr h

/-- A type that does not resolve raises as soon as it is looked up. -/
theorem lookup_error (hres : ¬ schema.Resolves type) {α : Type} (onEnum : Dict String Rat → LuaM α)
    (onStruct : Params → LuaM α) (other : LuaM α) :
    ∃ e, (do let (interfaceName, elemName) := getNames type schema
             let interface ← interfaceOf schema interfaceName
             match elemName.bind interface.enum.get, elemName.bind interface.struct.get with
             | some elements, _ => onEnum elements
             | none, some params => onStruct params
             | none, none => other) = .error e := by
  have hnone : (getNames type schema).1.bind schema.get = none := by
    rw [← Option.not_isSome_iff_eq_none]
    exact fun hsome => hres (.inr hsome)
  rcases hnames : getNames type schema with ⟨interfaceName, elemName⟩
  rw [hnames] at hnone
  dsimp only at hnone ⊢
  rw [interfaceOf, hnone]
  exact ⟨_, rfl⟩

theorem compareType_unresolved (hres : ¬ schema.Resolves type) (data : Value) {array : Option String}
    (harray : array ≠ some "true") (name : String) (nameOfStructure : Option String) :
    ∃ e, compareType lib schema data type array name nameOfStructure = .error e := by
  have hbase : ¬ isBaseType type = true := fun hbase => hres (.inl hbase)
  cases data with
  | table entries =>
    rw [compareType, if_neg harray, if_neg hbase]
    exact lookup_error hres _ _ _
  | _ =>
    rw [compareType, if_neg harray, if_neg hbase]
    · exact lookup_error hres _ _ _
    · exact nofun

/-- The check of a value that is no table. -/
theorem compareType_scalar (data : Value) (hdata : ∀ entries, data ≠ .table entries) (type : String)
    (array : Option String) (name : String) (nameOfStructure : Option String) :
    Settles (found lib schema data type (array = some "true"))
      (compareType lib schema data type array name nameOfStructure)
      (Judged lib (conforms lib schema .last data type (array = some "true"))) := by
  have hfound : found lib schema data type (array = some "true") =
      (decide (array = some "true") || decide (schema.Resolves type)) := by
    rw [found]
    · exact fun entries h _ => hdata entries h
    · exact fun entries h _ => hdata entries h
  have hconforms : conforms lib schema .last data type (array = some "true") =
      (!decide (array = some "true") && scalarConforms schema data type) := by
    rw [conforms]
    · exact fun entries h _ => hdata entries h
    · exact fun entries h _ => hdata entries h
  rw [hfound, hconforms]
  by_cases harray : array = some "true"
  · rw [compareType, if_pos harray, decide_eq_true harray]
    · exact .ok (judged_mismatch ..)
    · exact hdata
  rw [decide_eq_false harray, Bool.not_false, Bool.true_and, Bool.false_or]
  by_cases hres : schema.Resolves type
  · rw [decide_eq_true hres]
    by_cases hbase : isBaseType type = true
    · rw [compareType, if_neg harray, if_pos hbase]
      · exact .ok (judged_compareBase (if_pos hbase) data name nameOfStructure)
      · exact hdata
    rw [compareType_scalar_eq hres hbase hdata harray]
    cases hkind : schema.kindOf type with
    | enum elements => exact .ok (judged_compareEnum hkind data name nameOfStructure)
    | base => exact absurd (isBaseType_of_kindOf hkind) hbase
    | struct params => exact .ok (scalarConforms_of_struct hkind data ▸ judged_mismatch ..)
    | unknown => exact .ok (scalarConforms_of_unknown hkind data ▸ judged_mismatch ..)
  · rw [decide_eq_false hres]
    exact .inr ⟨rfl, compareType_unresolved hres data harray name nameOfStructure⟩

theorem isArray_of_conforms {looked : Looked} {data : Value} (h : conforms lib schema looked data type true = true) :
    isArray lib data = true := by
  cases data with
  | table entries => exact (Bool.and_eq_true_iff.mp h).1
  | _ => cases h

/-- The size is looked at for an array only, and what is no array is refused with its type as well. -/
theorem judged_sizeCheck (data : Value) (param : Param) (name : String) :
    Judged lib (!decide (param.array = some "true") || isArray lib data && sizeConforms param (countInArray data))
      (if param.array = some "true" then checkArray lib data param name else (true, none)) := by
  split
  · rename_i harray
    rw [decide_eq_true harray]
    exact judged_checkArray data param name
  · rename_i harray
    rw [decide_eq_false harray]
    exact judged_silent true

theorem size_and_conforms (looked : Looked) (data : Value) (param : Param) :
    ((!decide (param.array = some "true") || isArray lib data && sizeConforms param (countInArray data)) &&
        conforms lib schema looked data param.type (param.array = some "true")) =
      ((param.array ≠ some "true" || sizeConforms param (countInArray data)) &&
        conforms lib schema looked data param.type (param.array = some "true")) := by
  by_cases harray : param.array = some "true"
  · rw [decide_eq_true harray]
    cases hconforms : conforms lib schema looked data param.type true with
    | false => rw [Bool.and_false, Bool.and_false]
    | true => simp [isArray_of_conforms hconforms, harray]
  · simp [harray]

/-! ### The recursion -/

mutual

theorem compareType_spec : ∀ (data : Value) (type : String) (array : Option String) (name : String)
    (nameOfStructure : Option String),
    Settles (found lib schema data type (array = some "true"))
      (compareType lib schema data type array name nameOfStructure)
      (Judged lib (conforms lib schema .last data type (array = some "true")))
  | .nil, type, array, name, nameOfStructure => compareType_scalar .nil (fun _ => nofun) type array name nameOfStructure
  | .bool b, type, array, name, nameOfStructure =>
    compareType_scalar (.bool b) (fun _ => nofun) type array name nameOfStructure
  | .num n, type, array, name, nameOfStructure =>
    compareType_scalar (.num n) (fun _ => nofun) type array name nameOfStructure
  | .str s, type, array, name, nameOfStructure =>
    compareType_scalar (.str s) (fun _ => nofun) type array name nameOfStructure
  | .table entries, type, array, name, nameOfStructure => by
    by_cases harray : array = some "true"
    · rw [compareType, if_pos harray, decide_eq_true harray, conforms, found]
      cases isArray lib (.table entries) with
      | false => exact .ok (judged_mismatch ..)
      | true =>
        rw [if_pos rfl, Bool.not_true, Bool.false_or, Bool.true_and, ← Bool.and_true (elementsFound ..)]
        refine (compareElements_spec entries type name nameOfStructure true AllPrint.nil).bind ?_
        rintro ⟨result, messages⟩ ⟨hresult, hprint⟩
        dsimp only at hresult
        subst hresult
        refine .ok ?_
        cases entries with
        | nil => exact judged_message true hprint.table
        | cons e entries => exact judged_message _ hprint.table
    rw [decide_eq_false harray, conforms, found]
    by_cases hres : schema.Resolves type
    · rw [decide_eq_true hres, Bool.true_and]
      by_cases hbase : isBaseType type = true
      · rw [compareType, if_neg harray, if_pos hbase, Schema.kindOf, if_pos hbase]
        exact .ok (judged_mismatch ..)
      rw [compareType_table_eq hres hbase entries harray]
      cases hkind : schema.kindOf type with
      | struct params =>
        dsimp only
        rw [← Bool.and_true (paramsFound ..)]
        refine (compareParams_spec entries params (some (qualified nameOfStructure name)) true
          (allPrint_mandatoryMessages params entries (some (qualified nameOfStructure name)))).bind ?_
        rintro ⟨result, messages⟩ ⟨hresult, hprint⟩
        rw [Bool.true_and] at hresult
        dsimp only at hresult
        subst hresult
        exact .ok (judged_message _ hprint.table)
      | _ => exact .ok (judged_mismatch ..)
    · rw [decide_eq_false hres, Bool.false_and]
      exact .inr ⟨rfl, compareType_unresolved hres _ harray name nameOfStructure⟩

theorem compareElements_spec : ∀ (entries : List (Key × Value)) (type name : String) (nameOfStructure : Option String)
    (result : Bool) {messages : Dict Key Value}, AllPrint lib messages →
    Settles (elementsFound lib schema entries type)
      (compareElements lib schema entries type name nameOfStructure result messages)
      fun r => r.1 = (if entries = [] then result else elementsConform lib schema .last entries type) ∧ AllPrint lib r.2
  | [], _, _, _, _, _, hprint => .ok ⟨rfl, hprint⟩
  | (key, value) :: entries, type, name, nameOfStructure, result, messages, hprint => by
    rw [elementsFound, compareElements]
    refine (compareType_spec value type none (name ++ "." ++ key.toString) nameOfStructure).bind ?_
    rintro ⟨verdict, message⟩ ⟨hverdict, hmessage⟩
    dsimp only at hverdict ⊢
    refine (compareElements_spec entries type name nameOfStructure verdict
      (hprint.append (.messageEntry key hmessage))).mono fun r hr => ⟨hr.1.trans ?_, hr.2⟩
    rw [if_neg (List.cons_ne_nil _ _)]
    -- the verdict on this element is the result only if it is the last
    cases entries with
    | nil =>
      rw [if_pos rfl, elementsConform, elementsConform, Bool.and_true]
      · exact hverdict
      · exact nofun
    | cons e entries => rw [if_neg (List.cons_ne_nil _ _), elementsConform]

theorem compareParams_spec : ∀ (entries : List (Key × Value)) (params : Params) (nameOfStructure : Option String)
    (result : Bool) {messages : Dict Key Value}, AllPrint lib messages →
    Settles (paramsFound lib schema entries params)
      (compareParams lib schema entries params nameOfStructure result messages)
      fun r => r.1 = (result && paramsConform lib schema .last entries params) ∧ AllPrint lib r.2
  | [], _, _, _, _, hprint => .ok ⟨(Bool.and_true _).symm, hprint⟩
  | (key, value) :: entries, params, nameOfStructure, result, messages, hprint => by
    rw [compareParams, paramsConform, paramsFound]
    cases hparam : paramOf params key with
    | none =>
      dsimp only
      rw [Bool.true_and, Bool.false_and, Bool.and_false]
      refine (compareParams_spec entries params nameOfStructure false
        (hprint.set key (prints_str ("Invalid parameter " ++ key.toString ++ ", not existing in API schema")))).mono ?_
      exact fun r hr => ⟨hr.1.trans (Bool.false_and _), hr.2⟩
    | some param =>
      have hsize : Judged lib _ _ := judged_sizeCheck value param key.toString
      rcases hcheck : (if param.array = some "true" then checkArray lib value param key.toString else (true, none))
        with ⟨sizeOk, sizeMessage⟩
      obtain ⟨hsizeOk, hsizeMessage⟩ := hcheck ▸ hsize
      dsimp only
      rw [hcheck]
      refine (compareType_spec value param.type param.array key.toString nameOfStructure).bind ?_
      rintro ⟨typeOk, typeMessage⟩ ⟨htypeOk, htypeMessage⟩
      obtain ⟨text, htext⟩ := ((AllPrint.messageEntry (.int 1) hsizeMessage).append
        (AllPrint.messageEntry (.int 2) htypeMessage)).errorMsgsToString
      have hvalue := (congrArg₂ and hsizeOk htypeOk).trans (size_and_conforms .last value param)
      dsimp only at hvalue ⊢
      rw [errorMsgToString, htext]
      refine (compareParams_spec entries params nameOfStructure (result && sizeOk && typeOk)
        (hprint.set key (prints_str text))).mono fun r hr => ⟨hr.1.trans ?_, hr.2⟩
      rw [Bool.and_assoc result, hvalue, Bool.and_assoc result]

end

/-! ### `Compare` and `Validate` -/

/-- `Compare` finds these parameters of the function and this data. -/
def Resolved (schema : Schema) (functionId : FunctionRef) (functionType : FunctionType) (userData : Value)
    (entries : List (Key × Value)) (params : Params) : Prop :=
  ∃ f data interface, resolveFunction functionId userData = .ok (f, data) ∧ compare.orEmpty data = .table entries ∧
    interfaceOf schema (functionNames f schema).1 = .ok interface ∧
    functionParams interface functionType (functionNames f schema).2 = some params

variable {functionId : FunctionRef} {functionType : FunctionType} {userData : Value} {entries : List (Key × Value)}
  {params : Params}

/-- The key under which `Compare` puts the messages. -/
def messageKey (schema : Schema) (f : FunctionRef) : Key := ((functionNames f schema).2.getD f).toKey

/-- What `Compare` does once it has the interface. -/
def compareIn (lib : ValueLib) (schema : Schema) (functionType : FunctionType) (f : FunctionRef) (data : Value)
    (interface : Interface) : LuaM (Bool × Value × Value) :=
  match functionParams interface functionType (functionNames f schema).2 with
  | none =>
    .ok (false, .table [(messageKey schema f, .str ("function " ++ (messageKey schema f).toString ++
      " has not been found in schema"))], data)
  | some params => do
    let (result, messages) ← checkFunctionParams lib schema params (compare.orEmpty data)
    return (result, .table [(messageKey schema f, messages)], data)

theorem compare_eq (lib : ValueLib) {f : FunctionRef} {data : Value}
    (hresolve : resolveFunction functionId userData = .ok (f, data)) :
    compare lib schema (some functionId) functionType userData =
      interfaceOf schema (functionNames f schema).1 >>= compareIn lib schema functionType f data := by
  rw [compare, hresolve]
  rfl

theorem compare_spec (lib : ValueLib) (h : Resolved schema functionId functionType userData entries params) :
    Settles (paramsFound lib schema entries params) (compare lib schema (some functionId) functionType userData)
      fun r => r.1 = paramsConform lib schema .last entries params ∧
        ∃ messages, r.2.1 = .table messages ∧ AllPrint lib messages := by
  obtain ⟨f, data, interface, hresolve, hentries, hinterface, hparams⟩ := h
  have hcheck : Settles (paramsFound lib schema entries params)
      (checkFunctionParams lib schema params (compare.orEmpty data)) fun r =>
        r.1 = paramsConform lib schema .last entries params ∧ Prints lib r.2 := by
    rw [hentries, checkFunctionParams, checkTypeOfParam]
    have hspec : Settles (paramsFound lib schema entries params)
      (compareParams lib schema entries params none true []) _ :=
      compareParams_spec entries params none true AllPrint.nil
    rcases hspec with
      ⟨hfound, ⟨result, messages⟩, heq, hresult, hprint⟩ | ⟨hfound, e, heq⟩
    · refine .inl ⟨hfound, (result, .table messages), ?_, hresult.trans (Bool.true_and _), hprint.table⟩
      rw [heq]
      rfl
    · refine .inr ⟨hfound, e, ?_⟩
      rw [heq]
      rfl
  rw [compare_eq lib hresolve, hinterface]
  dsimp only [bind, Except.bind]
  rw [compareIn, hparams, ← Bool.and_true (paramsFound ..)]
  refine hcheck.bind ?_
  rintro ⟨result, messages⟩ ⟨hresult, hprint⟩
  refine .ok ⟨hresult, _, rfl, fun e he => ?_⟩
  rw [List.mem_singleton.mp he]
  exact hprint

theorem validate_spec (lib : ValueLib) (h : Resolved schema functionId functionType userData entries params) :
    Settles (paramsFound lib schema entries params) (validate lib schema true (some functionId) functionType userData)
      fun r => r.1 = paramsConform lib schema .last entries params := by
  rw [validate, if_pos rfl, ← Bool.and_true (paramsFound ..)]
  refine (compare_spec lib h).bind ?_
  rintro ⟨result, messages, data⟩ ⟨hresult, entries, hmessages, hprint⟩
  obtain ⟨text, htext⟩ := hprint.errorMsgsToString
  dsimp only at hresult hmessages ⊢
  rw [hmessages, errorMsgToString, htext]
  exact .ok hresult

end Checks

end Atf
