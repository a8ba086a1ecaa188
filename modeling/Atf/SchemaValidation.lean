import Atf.Lib.LuaValue

/-!
# Validation against an API schema (`schema_validation.lua`)

The schema is what `api_loader.lua` builds from the API file. A parameter's attributes are texts, except
that a missing `mandatory` is the boolean `true` and a missing `array` is `false`; only an `array` that is
the text `"true"` makes an array. Messages are tables and texts, as the source returns them, and are
flattened by `errorMsgToString`.

The source's functions call each other along the data: `compareType`, the loop of `CheckTypesInArray` and
the loop of `CheckTypeOfParam` are one recursion here, and the remaining functions stand below it.
-/

namespace Atf
open Lua

/-! ### Schemas -/

inductive FunctionType
  | request | response | notification
deriving DecidableEq, Repr

/-- A parameter; an attribute that is `none` is missing in the API file. -/
structure Param where
  type : String
  mandatory : Option String
  array : Option String
  minlength : Option Rat := none
  maxlength : Option Rat := none
  minsize : Option Rat := none
  maxsize : Option Rat := none
  minvalue : Option Rat := none
  maxvalue : Option Rat := none

abbrev Params := Dict String Param

structure Interface where
  functions : FunctionType → Dict String Params
  enum : Dict String (Dict String Rat)
  struct : Dict String Params

abbrev Schema := Dict String Interface

/-! ### Messages -/

/-- The text of a message; `none` stands for `nil`, which no table holds. -/
abbrev Message := Option Value

def messageEntry (k : Key) (m : Message) : List (Key × Value) := m.toList.map fun v => (k, v)

/-- A message that is not a table, on a line of its own unless it is empty. -/
def messageLine (lib : ValueLib) : Value → LuaM String
  | .str s => .ok (if s = "" then "" else s ++ "\n")
  | .num n => .ok (lib.numberToString n ++ "\n")
  | v => .error ("attempt to concatenate a " ++ v.type ++ " value")

mutual

def errorMsgToString (lib : ValueLib) : Value → LuaM String
  | .table entries => errorMsgsToString lib entries
  | v => .ok (v.tostring lib)

def errorMsgsToString (lib : ValueLib) : List (Key × Value) → LuaM String
  | [] => .ok ""
  | (_, v) :: rest => do
    let text ← if v.type = "table" then errorMsgToString lib v else messageLine lib v
    let texts ← errorMsgsToString lib rest
    return text ++ texts

end

/-- `name_of_structure .. "." .. name`, or the name alone outside of a structure -/
def qualified (nameOfStructure : Option String) (name : String) : String :=
  match nameOfStructure with
  | some s => s ++ "." ++ name
  | none => name

def mismatch (nameOfStructure : Option String) (name got expected : String) : Bool × Message :=
  (false, some (.str ("Parameter " ++ qualified nameOfStructure name ++ ": got " ++ got ++ ", expected " ++
    expected)))

/-! ### Names -/

/-- The longest first part of `([^.]+).([^.]+)`, of at most `n` characters, for which the rest matches. -/
def matchParts (s : List Char) : Nat → Option (List Char × List Char)
  | 0 => none
  | n + 1 =>
    let second := (s.drop (n + 2)).takeWhile (· ≠ '.')
    if second ≠ [] then some (s.take (n + 1), second) else matchParts s n

/-- `name:match("([^.]+).([^.]+)")`: the first place where the pattern matches. The dot of the pattern is
any character. -/
def matchNames : List Char → Option (List Char × List Char)
  | [] => none
  | c :: s =>
    match matchParts (c :: s) ((c :: s).takeWhile (· ≠ '.')).length with
    | some parts => some parts
    | none => matchNames s

/-- The names of the interface and of the function or type; either may be `nil`. -/
def getNames (name : String) (schema : Schema) : Option String × Option String :=
  if '.' ∈ name.toList then
    match matchNames name.toList with
    | some (interface, elem) => (some (String.ofList interface), some (String.ofList elem))
    | none => (none, none)
  else (schema.head?.map Prod.fst, some name)

def interfaceOf (schema : Schema) (name : Option String) : LuaM Interface :=
  match name.bind schema.get with
  | some interface => .ok interface
  | none => .error "attempt to index a nil value"

/-! ### Checks of a single value -/

/-- Indexing a type name, which is a string, looks in the string library, where there is no such field. -/
def stringField (_schemaElem _field : String) : Option Rat := none

inductive Bound
  | min | max

def Bound.toString : Bound → String
  | .min => "min"
  | .max => "max"

/-- The bound that a size violates: `CheckLength`, `CheckValue` and `CheckArray` look at the lower one
first. -/
def violated (size : Rat) (min max : Option Rat) : Option (Bound × Rat) :=
  match min.filter (size < ·), max.filter (size > ·) with
  | some m, _ => some (.min, m)
  | none, some m => some (.max, m)
  | none, none => none

def checkLength (lib : ValueLib) (s schemaElem name : String) : Bool × Message :=
  match violated s.utf8ByteSize (stringField schemaElem "minlength") (stringField schemaElem "maxlength") with
  | some (bound, m) =>
    (false, some (.str ("Parameter " ++ name ++ " get size: " ++ toString s.utf8ByteSize ++ ", expected " ++
      bound.toString ++ "length:" ++ lib.numberToString m)))
  | none => (true, none)

def checkValue (lib : ValueLib) (n : Rat) (schemaElem name : String) : Bool × Message :=
  match violated n (stringField schemaElem "minvalue") (stringField schemaElem "maxvalue") with
  | some (bound, m) =>
    (false, some (.str ("For parameter " ++ name ++ " get size: " ++ lib.numberToString n ++ ", expected " ++
      bound.toString ++ "value:" ++ lib.numberToString m)))
  | none => (true, none)

/-- The local `isArray`: an empty table counts as an array. -/
def isArray (lib : ValueLib) : Value → Bool
  | .table [] => true
  | .table entries => lib.isArray entries
  | _ => false

def isBaseType (schemaElem : String) : Bool :=
  schemaElem ∈ ["Integer", "Float", "Double", "String", "Boolean"]

def compareBase (lib : ValueLib) (data : Value) (schemaElem name : String) (nameOfStructure : Option String) :
    Bool × Message :=
  match data with
  | .num n =>
    if schemaElem ∈ ["Integer", "Float", "Double"] then checkValue lib n schemaElem name
    else mismatch nameOfStructure name data.type schemaElem
  | .str s =>
    if schemaElem = "String" then checkLength lib s schemaElem name
    else mismatch nameOfStructure name data.type schemaElem
  | .bool _ =>
    if schemaElem = "Boolean" then (true, none) else mismatch nameOfStructure name data.type schemaElem
  | _ => mismatch nameOfStructure name data.type schemaElem

/-- The branch of `CompareType` for an enumeration with these elements; any number is accepted. -/
def compareEnum (lib : ValueLib) (data : Value) (elements : Dict String Rat) (schemaElem name : String)
    (nameOfStructure : Option String) : Bool × Message :=
  match data with
  | .str s =>
    if (elements.get s).isSome then (true, none)
    else mismatch nameOfStructure name data.type ("enum value: " ++ schemaElem)
  | .num n =>
    if n ∈ elements.map Prod.snd then (true, none)
    else (true, some (.str ("[WARNING]: got non-existed integer value \"" ++ lib.numberToString n ++
      "\" in enum " ++ schemaElem)))
  | _ => mismatch nameOfStructure name data.type ("enum value: " ++ schemaElem)

def countInArray : Value → Nat
  | .table entries => entries.length
  | _ => 0

/-- `CheckArray`: the size of an array; a bound that is missing is a warning. -/
def checkArray (lib : ValueLib) (data : Value) (param : Param) (name : String) : Bool × Message :=
  if isArray lib data then
    let arraySize := countInArray data
    match violated arraySize param.minsize param.maxsize with
    | some (.min, m) =>
      (false, some (.str ("n array get size: " ++ toString arraySize ++ ", expected minsize:" ++
        lib.numberToString m)))
    | some (.max, m) =>
      (false, some (.str ("in array get size: " ++ toString arraySize ++ ", expected maxsize:" ++
        lib.numberToString m)))
    | none => (true, some (.table (warning "minsize" param.minsize ++ warning "maxsize" param.maxsize)))
  else (false, none)
where
  warning (attr : String) (bound : Option Rat) : List (Key × Value) :=
    match bound with
    | some _ => []
    | none => [(.str attr, .str ("WARNING: Problem with API schema " ++ name ++ ": \"" ++ attr ++
        "\" does not present in schema with array"))]

/-- `CheckExistenceOfMandatoryParam`, for data that is a table; its result is not used, only its messages.
An attribute in the API file is a text and never the boolean `true`. -/
def mandatoryMessages (params : Params) (entries : Dict Key Value) (nameOfStructure : Option String) :
    Dict Key Value :=
  params.foldl (fun messages (key, param) =>
    if (entries.get (.str key)).isNone && param.mandatory.isNone then
      let key := qualified nameOfStructure key
      messages.set (.str ("mandatory " ++ key)) (.str ("mandatory parameter " ++ key ++ " not present"))
    else messages) []

def paramOf (params : Params) : Key → Option Param
  | .str s => params.get s
  | .int _ => none

/-! ### The recursion along the data -/

mutual

/-- `CompareType`; `isArray` is the attribute `array` of the parameter. -/
def compareType (lib : ValueLib) (schema : Schema) :
    Value → (schemaElem : String) → (isArray : Option String) → (name : String) →
      (nameOfStructure : Option String) → LuaM (Bool × Message)
  | .table entries, schemaElem, isArray, name, nameOfStructure =>
    if isArray = some "true" then
      if Atf.isArray lib (.table entries) then do
        let (result, messages) ← compareElements lib schema entries schemaElem name nameOfStructure true []
        return (result, some (.table messages))
      else .ok (mismatch nameOfStructure name "table" "Array")
    else if isBaseType schemaElem then .ok (compareBase lib (.table entries) schemaElem name nameOfStructure)
    else do
      let (interfaceName, elemName) := getNames schemaElem schema
      let interface ← interfaceOf schema interfaceName
      match elemName.bind interface.enum.get, elemName.bind interface.struct.get with
      | some elements, _ => .ok (compareEnum lib (.table entries) elements schemaElem name nameOfStructure)
      | none, some params =>
        let structure' := qualified nameOfStructure name
        let (result, messages) ← compareParams lib schema entries params (some structure') true
          (mandatoryMessages params entries (some structure'))
        return (result, some (.table messages))
      | none, none => .ok (mismatch nameOfStructure name "table" schemaElem)
  | data, schemaElem, isArray, name, nameOfStructure =>
    if isArray = some "true" then .ok (mismatch nameOfStructure name data.type "Array")
    else if isBaseType schemaElem then .ok (compareBase lib data schemaElem name nameOfStructure)
    else do
      let (interfaceName, elemName) := getNames schemaElem schema
      let interface ← interfaceOf schema interfaceName
      match elemName.bind interface.enum.get, elemName.bind interface.struct.get with
      | some elements, _ => .ok (compareEnum lib data elements schemaElem name nameOfStructure)
      | none, some _ => .ok (mismatch nameOfStructure name data.type ("struct: " ++ schemaElem))
      | none, none => .ok (mismatch nameOfStructure name data.type schemaElem)

/-- The loop of `CheckTypesInArray`: each element's result takes the place of the one before. -/
def compareElements (lib : ValueLib) (schema : Schema) :
    List (Key × Value) → (schemaElem name : String) → (nameOfStructure : Option String) → (result : Bool) →
      (messages : Dict Key Value) → LuaM (Bool × Dict Key Value)
  | [], _, _, _, result, messages => .ok (result, messages)
  | (key, value) :: entries, schemaElem, name, nameOfStructure, _, messages => do
    let (result, message) ←
      compareType lib schema value schemaElem none (name ++ "." ++ key.toString) nameOfStructure
    compareElements lib schema entries schemaElem name nameOfStructure result
      (messages ++ messageEntry key message)

/-- The loop of `CheckTypeOfParam`. The source keeps three results and joins them at the end. -/
def compareParams (lib : ValueLib) (schema : Schema) :
    List (Key × Value) → (params : Params) → (nameOfStructure : Option String) → (result : Bool) →
      (messages : Dict Key Value) → LuaM (Bool × Dict Key Value)
  | [], _, _, result, messages => .ok (result, messages)
  | (key, value) :: entries, params, nameOfStructure, result, messages =>
    match paramOf params key with
    | none =>
      compareParams lib schema entries params nameOfStructure false
        (messages.set key (.str ("Invalid parameter " ++ key.toString ++ ", not existing in API schema")))
    | some param => do
      let (sizeOk, sizeMessage) :=
        if param.array = some "true" then checkArray lib value param key.toString else (true, none)
      let (typeOk, typeMessage) ←
        compareType lib schema value param.type param.array key.toString nameOfStructure
      let text ← errorMsgToString lib
        (.table (messageEntry (.int 1) sizeMessage ++ messageEntry (.int 2) typeMessage))
      compareParams lib schema entries params nameOfStructure (result && sizeOk && typeOk)
        (messages.set key (.str text))

end

/-! ### `Validate` -/

/-- `CheckTypeOfParam`; the messages are `nil` for data that is not a table. -/
def checkTypeOfParam (lib : ValueLib) (schema : Schema) (params : Params) (userData : Value)
    (messages : Dict Key Value) (nameOfStructure : Option String) : LuaM (Bool × Option (Dict Key Value)) :=
  match userData with
  | .table entries => do
    let (result, messages) ← compareParams lib schema entries params nameOfStructure true messages
    return (result, some messages)
  | _ => .ok (false, none)

def checkFunctionParams (lib : ValueLib) (schema : Schema) (params : Params) (userData : Value) :
    LuaM (Bool × Value) := do
  let (result, messages) ← checkTypeOfParam lib schema params userData [] none
  match messages with
  | some messages => .ok (result, .table messages)
  | none => .error "bad argument to 'pairs' (table expected, got nil)"

/-- What `Validate` may be given as a function: its name, or a number. -/
inductive FunctionRef
  | name (s : String)
  | id (n : Nat)
deriving DecidableEq, Repr

def FunctionRef.toKey : FunctionRef → Key
  | .name s => .str s
  | .id n => .int n

/-- The function `WrongFunctionName` stands for `GenericResponse`, and its data is given a result code. -/
def resolveFunction (functionId : FunctionRef) (userData : Value) : LuaM (FunctionRef × Value) :=
  if functionId = .name "WrongFunctionName" then
    match userData with
    | .table entries => .ok (.name "GenericResponse", .table (Dict.set entries (.str "resultCode") (.str "SUCCESS")))
    | _ => .error ("attempt to index a " ++ userData.type ++ " value")
  else .ok (functionId, userData)

/-- `GetNames` for a function; a number is no name of the schema. -/
def functionNames (functionId : FunctionRef) (schema : Schema) : Option String × Option FunctionRef :=
  match functionId with
  | .name s => ((getNames s schema).1, (getNames s schema).2.map .name)
  | .id n => (schema.head?.map Prod.fst, some (.id n))

def functionParams (interface : Interface) (functionType : FunctionType) : Option FunctionRef → Option Params
  | some (.name s) => (interface.functions functionType).get s
  | _ => none

/-- `Compare`; the third part is the data as the call leaves it. -/
def compare (lib : ValueLib) (schema : Schema) (functionId : Option FunctionRef) (functionType : FunctionType)
    (userData : Value) : LuaM (Bool × Value × Value) :=
  match functionId with
  | none => .ok (true, .table [], userData)
  | some functionId => do
    let (functionId, userData) ← resolveFunction functionId userData
    let (interfaceName, functionName) := functionNames functionId schema
    let interface ← interfaceOf schema interfaceName
    let key := (functionName.getD functionId).toKey
    match functionParams interface functionType functionName with
    | none =>
      return (false, .table [(key, .str ("function " ++ key.toString ++ " has not been found in schema"))], userData)
    | some params =>
      let (result, messages) ← checkFunctionParams lib schema params (orEmpty userData)
      return (result, .table [(key, messages)], userData)
where
  orEmpty : Value → Value
    | .nil => .table []
    | .bool false => .table []
    | v => v

def validate (lib : ValueLib) (schema : Schema) (validateSchema : Bool) (functionId : Option FunctionRef)
    (functionType : FunctionType) (userData : Value) : LuaM (Bool × String × Value) := do
  let (result, messages, userData) ←
    if validateSchema then compare lib schema functionId functionType userData
    else .ok (true, .table [], userData)
  let text ← errorMsgToString lib messages
  return (result, text, userData)

end Atf
