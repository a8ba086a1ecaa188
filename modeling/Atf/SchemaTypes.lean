import Atf.ArrayChecks

/-!
# Data of the declared types (`schema_validation.lua`)

`HasType` says what a value of a declared type is, with the names of types read as the API files write them: a name of
the only interface, or the name of an interface, a dot and a name of that interface. On data in which no key names an
array the checks decide exactly this (`compare_decides_types`). Along the way, `GetNames` finds the declaration that a
name stands for (`Schema.Names.getNames`).
-/

namespace Atf
open Lua

/-! ### Names of the schema -/

/-- The name stands for this name of the interface. -/
inductive Schema.Names (schema : Schema) : String → Interface → String → Prop
  | sole {interfaceName : String} {interface : Interface} {elem : String} :
    schema = [(interfaceName, interface)] → '.' ∉ elem.toList → Names schema elem interface elem
  | qualified {interfaceName : String} {interface : Interface} {elem : String} :
    schema.get interfaceName = some interface → interfaceName ≠ "" → '.' ∉ interfaceName.toList → elem ≠ "" →
      '.' ∉ elem.toList → Names schema (interfaceName ++ "." ++ elem) interface elem

def Schema.IsEnum (schema : Schema) (type : String) (elements : Dict String Rat) : Prop :=
  ∃ interface elem, schema.Names type interface elem ∧ interface.enum.get elem = some elements

def Schema.IsStruct (schema : Schema) (type : String) (params : Params) : Prop :=
  ∃ interface elem, schema.Names type interface elem ∧ interface.struct.get elem = some params

/-- The name of a type is exactly one of a base type, an enumeration and a structure. -/
inductive Schema.Declares (schema : Schema) (type : String) : Prop
  | base : isBaseType type = true → (∀ elements, ¬ schema.IsEnum type elements) →
      (∀ params, ¬ schema.IsStruct type params) → Declares schema type
  | enum (elements : Dict String Rat) : schema.IsEnum type elements → isBaseType type = false →
      (∀ params, ¬ schema.IsStruct type params) → Declares schema type
  | struct (params : Params) : schema.IsStruct type params → isBaseType type = false →
      (∀ elements, ¬ schema.IsEnum type elements) → Declares schema type

/-- Every parameter has a type that is declared. -/
structure Schema.Declared (schema : Schema) : Prop where
  struct : ∀ i ∈ schema, ∀ s ∈ i.2.struct, ∀ p ∈ s.2, schema.Declares p.2.type
  function : ∀ i ∈ schema, ∀ type, ∀ f ∈ i.2.functions type, ∀ p ∈ f.2, schema.Declares p.2.type

/-! ### Typed data -/

/-- The value has the declared type; any number stands for an element of an enumeration. -/
inductive HasType (schema : Schema) : String → Value → Prop
  | number {type : String} (n : Rat) : type ∈ ["Integer", "Float", "Double"] → HasType schema type (.num n)
  | string (s : String) : HasType schema "String" (.str s)
  | boolean (b : Bool) : HasType schema "Boolean" (.bool b)
  | member {type : String} {elements : Dict String Rat} (s : String) : schema.IsEnum type elements →
      (elements.get s).isSome = true → HasType schema type (.str s)
  | ordinal {type : String} {elements : Dict String Rat} (n : Rat) : schema.IsEnum type elements →
      HasType schema type (.num n)
  | struct {type : String} {params : Params} (entries : List (Key × Value)) : schema.IsStruct type params →
      (∀ e ∈ entries, (paramOf params e.1).isSome = true) →
      (∀ e ∈ entries, ∀ param, paramOf params e.1 = some param → HasType schema param.type e.2) →
        HasType schema type (.table entries)

/-- Every key is declared, and its value has the declared type. -/
def HasTypes (schema : Schema) (params : Params) (entries : List (Key × Value)) : Prop :=
  (∀ e ∈ entries, (paramOf params e.1).isSome = true) ∧
    ∀ e ∈ entries, ∀ param, paramOf params e.1 = some param → HasType schema param.type e.2

/-- No key names an array, here and inside of the structures. -/
inductive ArrayFree (schema : Schema) : Params → List (Key × Value) → Prop
  | intro {params : Params} {entries : List (Key × Value)} :
    (∀ e ∈ entries, ∀ param, paramOf params e.1 = some param → param.array ≠ some "true") →
      (∀ e ∈ entries, ∀ param, paramOf params e.1 = some param → ∀ inner, e.2 = .table inner →
        ∀ params', schema.IsStruct param.type params' → ArrayFree schema params' inner) →
      ArrayFree schema params entries

/-! ### `GetNames` -/

section Names
variable {schema : Schema} {type : String}

theorem takeWhile_dot {s : List Char} (h : '.' ∉ s) : s.takeWhile (· ≠ '.') = s := by
  rw [← List.append_nil s, List.takeWhile_append_of_pos, List.takeWhile_nil]
  intro c hc
  exact decide_eq_true fun heq => h (heq ▸ hc)

theorem takeWhile_dot_append {s : List Char} (h : '.' ∉ s) (rest : List Char) :
    (s ++ '.' :: rest).takeWhile (· ≠ '.') = s := by
  rw [List.takeWhile_append_of_pos, List.takeWhile_cons_of_neg, List.append_nil]
  · simp
  · intro c hc
    exact decide_eq_true fun heq => h (heq ▸ hc)

/-- The first part takes everything up to the dot, and the rest the second name. -/
theorem matchNames_qualified {first second : List Char} (hfirst : first ≠ []) (hdot : '.' ∉ first)
    (hsecond : second ≠ []) (hdot' : '.' ∉ second) :
    matchNames (first ++ '.' :: second) = some (first, second) := by
  have hparts : matchParts (first ++ '.' :: second) first.length = some (first, second) := by
    obtain ⟨n, hn⟩ := Nat.exists_eq_succ_of_ne_zero (mt List.length_eq_zero_iff.mp hfirst)
    have hdrop : (first ++ '.' :: second).drop (n + 2) = second := by
      rw [show n + 2 = first.length + 1 by omega, List.drop_length_add_append]
      rfl
    have htake : (first ++ '.' :: second).take (n + 1) = first := by
      rw [← Nat.succ_eq_add_one, ← hn, List.take_left]
    rw [hn, matchParts, hdrop, htake, takeWhile_dot hdot', if_pos hsecond]
  cases first with
  | nil => exact absurd rfl hfirst
  | cons c first =>
    rw [List.cons_append, matchNames, ← List.cons_append, takeWhile_dot_append hdot, hparts]

theorem Schema.Names.getNames {interface : Interface} {elem : String} (h : schema.Names type interface elem) :
    (getNames type schema).1.bind schema.get = some interface ∧ (Atf.getNames type schema).2 = some elem := by
  cases h with
  | sole hschema hdot =>
    subst hschema
    rw [Atf.getNames, if_neg hdot]
    exact ⟨List.lookup_cons_self, rfl⟩
  | @qualified interfaceName _ _ hget hname hnameDot helem helemDot =>
    have hlist : (interfaceName ++ "." ++ elem).toList = interfaceName.toList ++ '.' :: elem.toList := by simp
    have hmatch := matchNames_qualified (mt String.toList_eq_nil_iff.mp hname) hnameDot
      (mt String.toList_eq_nil_iff.mp helem) helemDot
    have hmem : '.' ∈ (interfaceName ++ "." ++ elem).toList := by
      rw [hlist]
      exact List.mem_append_right _ List.mem_cons_self
    rw [Atf.getNames, if_pos hmem, hlist, hmatch]
    dsimp only
    rw [String.ofList_toList, String.ofList_toList]
    exact ⟨hget, rfl⟩

/-! ### The kind of a type -/

theorem Schema.IsEnum.kindOf {elements : Dict String Rat} (h : schema.IsEnum type elements)
    (hbase : isBaseType type = false) : schema.kindOf type = .enum elements := by
  obtain ⟨interface, elem, hnames, hget⟩ := h
  rw [Schema.kindOf, if_neg (Bool.eq_false_iff.mp hbase), hnames.getNames.1]
  dsimp only
  rw [hnames.getNames.2, Option.bind_some, hget]

theorem Schema.IsStruct.kindOf {params : Params} (h : schema.IsStruct type params)
    (hbase : isBaseType type = false) (henum : ∀ elements, ¬ schema.IsEnum type elements) :
    schema.kindOf type = .struct params := by
  obtain ⟨interface, elem, hnames, hget⟩ := h
  have hnone : interface.enum.get elem = none := by
    rw [Option.eq_none_iff_forall_ne_some]
    exact fun elements helements => henum elements ⟨interface, elem, hnames, helements⟩
  rw [Schema.kindOf, if_neg (Bool.eq_false_iff.mp hbase), hnames.getNames.1]
  dsimp only
  rw [hnames.getNames.2, Option.bind_some, Option.bind_some, hnone, hget]

theorem Schema.IsEnum.eq_get {elements : Dict String Rat} (h : schema.IsEnum type elements) :
    some elements = ((Atf.getNames type schema).1.bind schema.get).bind fun interface =>
      (Atf.getNames type schema).2.bind interface.enum.get := by
  obtain ⟨interface, elem, hnames, hget⟩ := h
  rw [hnames.getNames.1, hnames.getNames.2, Option.bind_some, Option.bind_some, hget]

theorem Schema.IsStruct.eq_get {params : Params} (h : schema.IsStruct type params) :
    some params = ((Atf.getNames type schema).1.bind schema.get).bind fun interface =>
      (Atf.getNames type schema).2.bind interface.struct.get := by
  obtain ⟨interface, elem, hnames, hget⟩ := h
  rw [hnames.getNames.1, hnames.getNames.2, Option.bind_some, Option.bind_some, hget]

theorem Schema.Declares.resolves (h : schema.Declares type) : schema.Resolves type := by
  cases h with
  | base hbase _ _ => exact .inl hbase
  | enum elements henum _ _ =>
    obtain ⟨interface, elem, hnames, -⟩ := henum
    exact .inr (hnames.getNames.1 ▸ rfl)
  | struct params hstruct _ _ =>
    obtain ⟨interface, elem, hnames, -⟩ := hstruct
    exact .inr (hnames.getNames.1 ▸ rfl)

theorem Schema.Declared.wellFormed (h : schema.Declared) : schema.WellFormed :=
  ⟨fun i hi s hs p hp => (h.struct i hi s hs p hp).resolves,
    fun i hi type f hf p hp => (h.function i hi type f hf p hp).resolves⟩

end Names

/-! ### Values and their types -/

section Typed
variable {lib : ValueLib} {schema : Schema} {type : String}

theorem hasType_num_iff {n : Rat} :
    HasType schema type (.num n) ↔ type ∈ ["Integer", "Float", "Double"] ∨ ∃ elements, schema.IsEnum type elements := by
  constructor
  · intro h
    cases h with
    | number _ htype => exact .inl htype
    | ordinal _ henum => exact .inr ⟨_, henum⟩
  · rintro (htype | ⟨elements, henum⟩)
    · exact .number n htype
    · exact .ordinal n henum

theorem hasType_str_iff {s : String} :
    HasType schema type (.str s) ↔
      type = "String" ∨ ∃ elements, schema.IsEnum type elements ∧ (elements.get s).isSome = true := by
  constructor
  · intro h
    cases h with
    | string => exact .inl rfl
    | member _ henum hmember => exact .inr ⟨_, henum, hmember⟩
  · rintro (rfl | ⟨elements, henum, hmember⟩)
    · exact .string s
    · exact .member s henum hmember

theorem hasType_bool_iff {b : Bool} : HasType schema type (.bool b) ↔ type = "Boolean" := by
  constructor
  · intro h
    cases h
    rfl
  · rintro rfl
    exact .boolean b

theorem hasType_table_iff {entries : List (Key × Value)} :
    HasType schema type (.table entries) ↔ ∃ params, schema.IsStruct type params ∧ HasTypes schema params entries := by
  constructor
  · intro h
    cases h with
    | struct _ hstruct hdeclared htypes => exact ⟨_, hstruct, hdeclared, htypes⟩
  · rintro ⟨params, hstruct, hdeclared, htypes⟩
    exact .struct entries hstruct hdeclared htypes

theorem not_hasType_nil : ¬ HasType schema type .nil := nofun

theorem not_baseType (hbase : isBaseType type = false) :
    type ∉ ["Integer", "Float", "Double"] ∧ type ≠ "String" ∧ type ≠ "Boolean" := by
  simp only [isBaseType, decide_eq_false_iff_not, List.mem_cons, List.not_mem_nil, not_or] at hbase ⊢
  tauto

/-- A value that is no table is of a base type or of an enumeration. -/
theorem scalarConforms_iff_hasType (hd : schema.Declares type) {data : Value}
    (hdata : ∀ entries, data ≠ .table entries) :
    scalarConforms schema data type = true ↔ HasType schema type data := by
  unfold scalarConforms
  cases hd with
  | base hbase henum hstruct =>
    have hkind : schema.kindOf type = .base := by rw [Schema.kindOf, if_pos hbase]
    rw [hkind]
    cases data with
    | nil => simp [not_hasType_nil]
    | bool b => simp [hasType_bool_iff]
    | num n => simp [hasType_num_iff, henum]
    | str s => simp [hasType_str_iff, henum]
    | table entries => exact absurd rfl (hdata entries)
  | enum elements henum hbase hstruct =>
    obtain ⟨hnumber, hstring, hboolean⟩ := not_baseType hbase
    rw [henum.kindOf hbase]
    cases data with
    | nil => simp [not_hasType_nil]
    | bool b => simp [hasType_bool_iff, hboolean]
    | num n => simpa using HasType.ordinal n henum
    | str s =>
      rw [hasType_str_iff, or_iff_right hstring]
      constructor
      · exact fun hmember => ⟨elements, henum, hmember⟩
      · rintro ⟨elements', henum', hmember⟩
        have hsame := (henum.kindOf hbase).symm.trans (henum'.kindOf hbase)
        rw [TypeKind.enum.injEq] at hsame
        rwa [← hsame] at hmember
    | table entries => exact absurd rfl (hdata entries)
  | struct params hstruct hbase henum =>
    obtain ⟨hnumber, hstring, hboolean⟩ := not_baseType hbase
    rw [hstruct.kindOf hbase henum]
    cases data with
    | nil => simp [not_hasType_nil]
    | bool b => simp [hasType_bool_iff, hboolean]
    | num n => simp [hasType_num_iff, henum, hnumber]
    | str s => simp [hasType_str_iff, henum, hstring]
    | table entries => exact absurd rfl (hdata entries)

/-- All of the parameters have types that are declared. -/
def Schema.DeclaresAll (schema : Schema) (params : Params) : Prop := ∀ p ∈ params, schema.Declares p.2.type

theorem Schema.DeclaresAll.paramOf {params : Params} (h : schema.DeclaresAll params) {key : Key} {param : Param}
    (hparam : paramOf params key = some param) : schema.Declares param.type := by
  obtain ⟨name, hmem⟩ := mem_of_paramOf hparam
  exact h _ hmem

theorem Schema.Names.mem {interface : Interface} {elem : String} (h : schema.Names type interface elem) :
    ∃ interfaceName, (interfaceName, interface) ∈ schema := by
  obtain ⟨interfaceName, -, hget⟩ := Option.bind_eq_some_iff.mp h.getNames.1
  exact ⟨interfaceName, Dict.mem_of_get hget⟩

theorem Schema.Declared.isStruct (hw : schema.Declared) {params : Params} (h : schema.IsStruct type params) :
    schema.DeclaresAll params := by
  obtain ⟨interface, elem, hnames, hget⟩ := h
  obtain ⟨interfaceName, hmem⟩ := hnames.mem
  exact hw.struct _ hmem _ (Dict.mem_of_get hget)

theorem hasTypes_cons_iff {params : Params} {key : Key} {value : Value} {entries : List (Key × Value)} :
    HasTypes schema params ((key, value) :: entries) ↔
      (∃ param, paramOf params key = some param ∧ HasType schema param.type value) ∧
        HasTypes schema params entries := by
  unfold HasTypes
  simp only [List.forall_mem_cons, Option.isSome_iff_exists]
  constructor
  · rintro ⟨⟨⟨param, hparam⟩, hdeclared⟩, htype, htypes⟩
    exact ⟨⟨param, hparam, htype param hparam⟩, hdeclared, htypes⟩
  · rintro ⟨⟨param, hparam, htype⟩, hdeclared, htypes⟩
    refine ⟨⟨⟨param, hparam⟩, hdeclared⟩, fun param' hparam' => ?_, htypes⟩
    rw [hparam, Option.some.injEq] at hparam'
    exact hparam' ▸ htype

theorem arrayFree_cons_iff {params : Params} {e : Key × Value} {entries : List (Key × Value)} :
    ArrayFree schema params (e :: entries) ↔
      (∀ param, paramOf params e.1 = some param → param.array ≠ some "true" ∧
        ∀ inner, e.2 = .table inner → ∀ params', schema.IsStruct param.type params' → ArrayFree schema params' inner) ∧
      ArrayFree schema params entries := by
  constructor
  · rintro ⟨harray, hinner⟩
    rw [List.forall_mem_cons] at harray hinner
    exact ⟨fun param hparam => ⟨harray.1 param hparam, hinner.1 param hparam⟩, .intro harray.2 hinner.2⟩
  · rintro ⟨hhead, ⟨harray, hinner⟩⟩
    refine .intro (List.forall_mem_cons.mpr ⟨fun param hparam => (hhead param hparam).1, harray⟩) ?_
    exact List.forall_mem_cons.mpr ⟨fun param hparam => (hhead param hparam).2, hinner⟩

mutual

theorem conforms_iff_hasType (hw : schema.Declared) : ∀ (data : Value) {type : String}, schema.Declares type →
    (∀ inner, data = .table inner → ∀ params, schema.IsStruct type params → ArrayFree schema params inner) →
      (conforms lib schema .last data type false = true ↔ HasType schema type data)
  | .nil, _, hd, _ => scalarConforms_iff_hasType hd fun _ => nofun
  | .bool _, _, hd, _ => scalarConforms_iff_hasType hd fun _ => nofun
  | .num _, _, hd, _ => scalarConforms_iff_hasType hd fun _ => nofun
  | .str _, _, hd, _ => scalarConforms_iff_hasType hd fun _ => nofun
  | .table entries, type, hd, hfree => by
    rw [conforms, hasType_table_iff]
    cases hd with
    | base hbase henum hstruct => simp [Schema.kindOf, hbase, hstruct]
    | enum elements henum hbase hstruct => simp [henum.kindOf hbase, hstruct]
    | struct params hstruct hbase henum =>
      rw [hstruct.kindOf hbase henum]
      dsimp only
      rw [paramsConform_iff_hasTypes hw entries (hw.isStruct hstruct) (hfree entries rfl params hstruct)]
      constructor
      · exact fun h => ⟨params, hstruct, h⟩
      · rintro ⟨params', hstruct', h⟩
        have hsame := (hstruct.kindOf hbase henum).symm.trans (hstruct'.kindOf hbase henum)
        rw [TypeKind.struct.injEq] at hsame
        rwa [hsame]

theorem paramsConform_iff_hasTypes (hw : schema.Declared) : ∀ (entries : List (Key × Value)) {params : Params},
    schema.DeclaresAll params → ArrayFree schema params entries →
      (paramsConform lib schema .last entries params = true ↔ HasTypes schema params entries)
  | [], _, _, _ => iff_of_true rfl ⟨nofun, nofun⟩
  | (key, value) :: entries, params, hd, hfree => by
    obtain ⟨hhead, htail⟩ := arrayFree_cons_iff.mp hfree
    rw [paramsConform, Bool.and_eq_true_iff, hasTypes_cons_iff, paramsConform_iff_hasTypes hw entries hd htail]
    refine and_congr_left fun _ => ?_
    cases hparam : paramOf params key with
    | none => simp
    | some param =>
      obtain ⟨harray, hinner⟩ := hhead param hparam
      have hvalue : conforms lib schema .last value param.type false = true ↔ HasType schema param.type value :=
        conforms_iff_hasType hw value (hd.paramOf hparam) hinner
      simpa [harray] using hvalue

end

end Typed

/-- `Compare` accepts data without arrays exactly if every key is declared and every value has its declared type, at
every level. -/
theorem compare_decides_types (lib : ValueLib) {schema : Schema} (hw : schema.Declared) {functionId : String}
    (hreserved : functionId ≠ "WrongFunctionName") {interface : Interface} {functionName : String}
    (hname : schema.Names functionId interface functionName) {functionType : FunctionType} {params : Params}
    (hparams : (interface.functions functionType).get functionName = some params) {entries : List (Key × Value)}
    (hfree : ArrayFree schema params entries) :
    ∃ r messages data, compare lib schema (some (.name functionId)) functionType (.table entries) =
        .ok (r, messages, data) ∧ (r = true ↔ HasTypes schema params entries) := by
  have hresolved : Resolved schema (.name functionId) functionType (.table entries) entries params := by
    refine ⟨.name functionId, .table entries, interface, ?_, rfl, ?_, ?_⟩
    · exact if_neg fun h => hreserved (FunctionRef.name.inj h)
    · rw [interfaceOf, functionNames, hname.getNames.1]
    · rw [functionNames, hname.getNames.2]
      exact hparams
  obtain ⟨⟨r, messages, data⟩, hcompare, hr, -⟩ := (compare_spec lib hresolved).of_found
    (hresolved.paramsFound hw.wellFormed)
  obtain ⟨interfaceName, hmem⟩ := hname.mem
  have hdeclares : schema.DeclaresAll params := hw.function _ hmem functionType _ (Dict.mem_of_get hparams)
  refine ⟨r, messages, data, hcompare, ?_⟩
  dsimp only at hr
  rw [hr, paramsConform_iff_hasTypes hw entries hdeclares hfree]

/-! ### Example: a structure with an enumeration -/

namespace TypeSample

def lib : ValueLib := ⟨fun n => toString n.num, fun entries => entries.all fun e => e.1 matches .int _⟩

def image : Params := [("imageType", { type := "Common.ImageType", mandatory := some "true", array := none })]

def setAppIcon : Params :=
  [("syncFileName", { type := "Common.Image", mandatory := some "true", array := none }),
   ("appID", { type := "Integer", mandatory := some "true", array := none })]

def common : Interface :=
  { functions := fun _ => []
    enum := [("ImageType", [("STATIC", 0), ("DYNAMIC", 1)])]
    struct := [("Image", image)] }

def ui : Interface :=
  { functions := fun
      | .request => [("SetAppIcon", setAppIcon)]
      | _ => []
    enum := [], struct := [] }

def schema : Schema := [("Common", common), ("UI", ui)]

theorem names_common (elem : String) (helem : elem ≠ "") (hdot : '.' ∉ elem.toList) :
    schema.Names ("Common" ++ "." ++ elem) common elem :=
  .qualified rfl (by decide) (by decide) helem hdot

theorem names_ui (elem : String) (helem : elem ≠ "") (hdot : '.' ∉ elem.toList) :
    schema.Names ("UI" ++ "." ++ elem) ui elem :=
  .qualified rfl (by decide) (by decide) helem hdot

theorem names_setAppIcon : schema.Names "UI.SetAppIcon" ui "SetAppIcon" := names_ui "SetAppIcon" (by decide) (by decide)

theorem declares_integer : schema.Declares "Integer" := by
  refine .base rfl (fun elements h => ?_) fun params h => ?_
  · cases h.eq_get
  · cases h.eq_get

theorem isStruct_image : schema.IsStruct "Common.Image" image :=
  ⟨common, "Image", names_common "Image" (by decide) (by decide), rfl⟩

theorem declares_image : schema.Declares "Common.Image" := by
  refine .struct image isStruct_image rfl fun elements h => ?_
  cases h.eq_get

theorem declares_imageType : schema.Declares "Common.ImageType" := by
  refine .enum _ ⟨common, "ImageType", names_common "ImageType" (by decide) (by decide), rfl⟩ rfl fun params h => ?_
  cases h.eq_get

theorem declared : schema.Declared := by
  constructor
  · intro i hi s hs
    simp only [schema, List.mem_cons, List.not_mem_nil, or_false] at hi
    rcases hi with rfl | rfl
    · rw [List.mem_singleton.mp hs]
      exact List.forall_mem_singleton.mpr declares_imageType
    · cases hs
  · intro i hi type f hf
    simp only [schema, List.mem_cons, List.not_mem_nil, or_false] at hi
    rcases hi with rfl | rfl
    · cases hf
    · cases type with
      | request =>
        rw [List.mem_singleton.mp hf]
        simp only [setAppIcon, List.forall_mem_cons]
        exact ⟨declares_image, declares_integer, List.forall_mem_nil _⟩
      | response => cases hf
      | notification => cases hf

def entries : List (Key × Value) :=
  [(.str "syncFileName", .table [(.str "imageType", .str "DYNAMIC")]), (.str "appID", .num 1)]

theorem arrayFree_image : ArrayFree schema image [(.str "imageType", .str "DYNAMIC")] := by
  refine arrayFree_cons_iff.mpr ⟨fun param hparam => ?_, .intro nofun nofun⟩
  cases hparam
  exact ⟨nofun, nofun⟩

theorem arrayFree : ArrayFree schema setAppIcon entries := by
  refine arrayFree_cons_iff.mpr ⟨fun param hparam => ?_, arrayFree_cons_iff.mpr
    ⟨fun param hparam => ?_, .intro nofun nofun⟩⟩
  · cases hparam
    refine ⟨nofun, fun inner hinner params hstruct => ?_⟩
    cases hinner
    cases hstruct.eq_get
    exact arrayFree_image
  · cases hparam
    exact ⟨nofun, nofun⟩

end TypeSample

open TypeSample in
theorem compare_decides_types_setAppIcon :
    ∃ r messages data, compare lib schema (some (.name "UI.SetAppIcon")) .request (.table entries) =
      .ok (r, messages, data) ∧ (r = true ↔ HasTypes schema setAppIcon entries) :=
  compare_decides_types lib declared (by decide) names_setAppIcon rfl arrayFree

end Atf
