import Atf.RpcService
import Mathlib.Data.List.Infix

/-!
# The check of a response from SDL to the HMI (`EXPECT_HMIRESPONSE` in `connecttest.lua`)

What is expected of a response may stand under `result` or under `error`, or be the whole table of arguments. The check
tells the three apart by the words in a text of the table, where they may come from any other key or value; the part it
reads is then missing. Which part of the response it is compared with depends on the response, and an expected part that
is missing is compared with the parameters, which no response has. What is expected is found in the response if the
words are the keys of the table and the response has the part that is asked for (`LinedUp`).
-/

namespace Atf
open Lua

/-! ### Values -/

def truthy : Value → Bool
  | .nil => false
  | .bool b => b
  | _ => true

/-- `v.name`; the string library, where the fields of a string are looked up, has none of the names used here. -/
def field : Value → String → LuaM Value
  | .table entries, name => .ok (index entries (.str name))
  | .str _, _ => .ok .nil
  | v, _ => .error ("attempt to index a " ++ v.type ++ " value")

def removeKey : Value → String → Value
  | .table entries, k => .table (entries.filter (·.1 ≠ .str k))
  | v, _ => v

def keyText : Key → String
  | .int i => toString i
  | .str s => "\"" ++ s ++ "\""

mutual

def table2str (lib : ValueLib) : Value → String
  | .table entries => "\x7b " ++ entries2str lib entries ++ "\x7d \n"
  | v => v.tostring lib

def entries2str (lib : ValueLib) : List (Key × Value) → String
  | [] => ""
  | (k, v) :: entries => "[" ++ keyText k ++ "] = " ++ table2str lib v ++ "," ++ entries2str lib entries

end

/-- `text:match(word)`, for a word without magic characters -/
def hasWord (text word : String) : Bool := decide (word.toList <:+: text.toList)

/-! ### The check -/

/-- What the check uses of other modules. -/
structure HmiEnv where
  lib : ValueLib
  hmiSchema : Schema
  validateSchema : Bool

/-- The part of the arguments that is compared. -/
inductive ArgsPart
  | result | error | whole
deriving DecidableEq

/-- The part of the response that it is compared with. -/
inductive ResponsePart
  | result | error | params
deriving DecidableEq

def ArgsPart.of (arguments : Value) : ArgsPart → LuaM Value
  | .result => field arguments "result"
  | .error => field arguments "error"
  | .whole => .ok arguments

/-- The part that the words stand for. -/
def wordPart (text : String) : ArgsPart :=
  if hasWord text "result" then .result else if hasWord text "error" then .error else .whole

/-- `results_args2`, which is not used any further; a value without fields raises. -/
def resultsArgs2 (resultsArgs : Value) : LuaM Value := do
  if !truthy resultsArgs then return resultsArgs
  let code ← field resultsArgs "code"
  let rest := if truthy code then removeKey resultsArgs "code" else resultsArgs
  let method ← field rest "method"
  if truthy method then return removeKey rest "method"
  let data ← field rest "data"
  if !truthy data then return rest
  let method ← field data "method"
  return if truthy method then removeKey data "method" else rest

def funcName (data : Dict Key Value) : LuaM Value :=
  match index data (.str "method"), index data (.str "result"), index data (.str "error") with
  | .nil, .table result, _ => .ok (index result (.str "method"))
  | .nil, _, .table error => field (index error (.str "data")) "method"
  | method, _, _ => .ok method

/-- `Validate` for a name that was read from a response and may be any value. A number is no name of the schema, and
its text has a dot if it is a fraction. The parameters are returned as the call leaves them. -/
def validateResponse (env : HmiEnv) (name params : Value) : LuaM (Bool × String × Value) :=
  match name with
  | .nil => validate env.lib env.hmiSchema env.validateSchema none .response params
  | .str s => validate env.lib env.hmiSchema env.validateSchema (some (.name s)) .response params
  | name =>
    if !env.validateSchema then .ok (true, "", params)
    else
      match name with
      | .num n =>
        if '.' ∈ (env.lib.numberToString n).toList then .error "attempt to index a number value"
        else do
          let _ ← interfaceOf env.hmiSchema (env.hmiSchema.head?.map Prod.fst)
          return (false, "function " ++ env.lib.numberToString n ++ " has not been found in schema\n", params)
      | name => .error ("bad argument to 'find' (string expected, got " ++ name.type ++ ")")

def ResponsePart.name : ResponsePart → String
  | .result => "result"
  | .error => "error"
  | .params => "params"

def ResponsePart.of (data : Dict Key Value) (params : Value) : ResponsePart → Value
  | .result => index data (.str "result")
  | .error => index data (.str "error")
  | .params => params

def comparedPart (func resultsArgs : Value) (data : Dict Key Value) : ResponsePart :=
  if truthy func && truthy resultsArgs && truthy (index data (.str "result")) then .result
  else if truthy func && truthy resultsArgs && truthy (index data (.str "error")) then .error
  else .params

/-- The schema is left out for arguments with the word `error`. -/
def schemaStep (env : HmiEnv) (text : String) (func params : Value) : LuaM (Bool × String × Value) :=
  if hasWord text "error" then .ok (true, "", params) else validateResponse env func params

/-- The function given to `ValidIf`, for the arguments of this occurrence; it also returns the parameters of the
response as it leaves them. -/
def hmiResponseCheck (env : HmiEnv) (arguments : Value) (data : Dict Key Value) : LuaM (Bool × String × Value) := do
  let text := table2str env.lib arguments
  let resultsArgs ← (wordPart text).of arguments
  let _ ← resultsArgs2 resultsArgs
  let func ← funcName data
  let (res, err, params) ← schemaStep env text func (index data (.str "params"))
  if !res then return (res, err, params)
  let part := comparedPart func resultsArgs data
  let (res, err) := compareValues env.lib resultsArgs (part.of data params) part.name
  return (res, err, params)

/-- The check that `EXPECT_HMIRESPONSE` installs, at an occurrence of the expectation. -/
def hmiResponseValid (env : HmiEnv) (args : List Value) (occurences : Nat) (data : Dict Key Value) :
    LuaM (Bool × String × Value) :=
  hmiResponseCheck env (expectedArguments args occurences) data

/-! ### What is expected -/

def isNil : Value → Bool
  | .nil => true
  | _ => false

/-- The part that the keys of the arguments stand for. -/
def keyPart (arguments : Dict Key Value) : ArgsPart :=
  if !isNil (index arguments (.str "result")) then .result
  else if !isNil (index arguments (.str "error")) then .error
  else .whole

/-- The part of the response in which it should be found; the whole table is for a response of either kind. -/
def correspondingPart (data : Dict Key Value) : ArgsPart → ResponsePart
  | .result => .result
  | .error => .error
  | .whole =>
    if !isNil (index data (.str "result")) then .result
    else if !isNil (index data (.str "error")) then .error
    else .params

def ArgsPart.value (arguments : Dict Key Value) : ArgsPart → Value
  | .result => index arguments (.str "result")
  | .error => index arguments (.str "error")
  | .whole => .table arguments

/-- The expected value embeds in the part of the response, as `compareValues` has it. -/
def FoundIn (lib : ValueLib) (expected : Value) (data : Dict Key Value) (params : Value) (part : ResponsePart) : Prop :=
  (compareValues lib expected (part.of data params) part.name).1 = true

/-- The response has the name of a function: its own, or that of its result, or else that of its error. -/
inductive Names (data : Dict Key Value) : Prop
  | own (h : truthy (index data (.str "method")) = true)
  | result {result : Dict Key Value} (hown : index data (.str "method") = .nil)
      (hresult : index data (.str "result") = .table result) (h : truthy (index result (.str "method")) = true)
  | error {error entries : Dict Key Value} (hown : index data (.str "method") = .nil)
      (hresult : ∀ result, index data (.str "result") ≠ .table result)
      (herror : index data (.str "error") = .table error)
      (hdata : index error (.str "data") = .table entries) (h : truthy (index entries (.str "method")) = true)

/-- The response has this part, and nothing is there that would be compared in its place. -/
def HasPart (expected : Value) (data : Dict Key Value) : ResponsePart → Prop
  | .result => Names data ∧ truthy expected = true ∧ truthy (index data (.str "result")) = true
  | .error => Names data ∧ truthy expected = true ∧ truthy (index data (.str "result")) = false ∧
      truthy (index data (.str "error")) = true
  | .params => ¬ (Names data ∧ truthy expected = true ∧
      (truthy (index data (.str "result")) = true ∨ truthy (index data (.str "error")) = true))

/-- The words of the text are keys of the arguments as far as they are looked for, and the response has the part that is
asked for. -/
structure LinedUp (env : HmiEnv) (arguments data : Dict Key Value) : Prop where
  result : keyPart arguments = .result ∨ hasWord (table2str env.lib (.table arguments)) "result" = false
  error : keyPart arguments = .whole → hasWord (table2str env.lib (.table arguments)) "error" = false
  part : HasPart ((keyPart arguments).value arguments) data (correspondingPart data (keyPart arguments))

section Check
variable {env : HmiEnv} {arguments data : Dict Key Value} {func params : Value}

theorem ArgsPart.of_table (part : ArgsPart) : part.of (.table arguments) = .ok (part.value arguments) := by
  cases part <;> rfl

/-- When the check returns `true`, the part that the words stand for is found in the part that is compared. -/
theorem found_of_check {message : String}
    (h : hmiResponseCheck env (.table arguments) data = .ok (true, message, params)) :
    ∃ func, funcName data = .ok func ∧
      FoundIn env.lib ((wordPart (table2str env.lib (.table arguments))).value arguments) data params
        (comparedPart func ((wordPart (table2str env.lib (.table arguments))).value arguments) data) := by
  obtain ⟨resultsArgs, hargs, h⟩ := bind_eq_ok.mp h
  rw [ArgsPart.of_table] at hargs
  cases hargs
  obtain ⟨_, -, h⟩ := bind_eq_ok.mp h
  obtain ⟨func, hfunc, h⟩ := bind_eq_ok.mp h
  obtain ⟨⟨res, err, params'⟩, -, h⟩ := bind_eq_ok.mp h
  cases res with
  | false => cases h
  | true =>
    have hresult := congrArg (Except.map fun r => (r.1, r.2.2)) h
    obtain ⟨hfound, rfl⟩ := Prod.mk.inj (Except.ok.inj hresult)
    exact ⟨func, hfunc, hfound⟩

/-! ### The parts of the response -/

theorem truthy_funcName_iff (h : funcName data = .ok func) : truthy func = true ↔ Names data := by
  unfold funcName at h
  split at h
  · rename_i result hown hresult
    cases h
    constructor
    · exact .result hown hresult
    · rintro (hname | ⟨-, hresult', hname⟩ | ⟨-, hresult', -, -, -⟩)
      · rw [hown] at hname
        cases hname
      · cases hresult.symm.trans hresult'
        exact hname
      · exact absurd hresult (hresult' result)
  · rename_i error hown herror hresult
    constructor
    · intro hname
      cases hdata : index error (.str "data") with
      | table entries =>
        rw [hdata] at h
        cases h
        exact .error hown hresult herror hdata hname
      | str s =>
        rw [hdata] at h
        cases h
        cases hname
      | _ =>
        rw [hdata] at h
        cases h
    · rintro (hname | ⟨-, hresult', -⟩ | ⟨-, -, herror', hdata, hname⟩)
      · rw [hown] at hname
        cases hname
      · exact absurd hresult' (hresult _)
      · cases herror.symm.trans herror'
        rw [hdata] at h
        cases h
        exact hname
  · rename_i hresult herror
    cases h
    constructor
    · exact .own
    · rintro (hname | ⟨hown, hresult', -⟩ | ⟨hown, -, herror', -, -⟩)
      · exact hname
      · exact absurd hresult' (hresult _ hown)
      · exact absurd herror' (herror _ hown)

theorem comparedPart_eq_iff (hfunc : funcName data = .ok func) (expected : Value) (part : ResponsePart) :
    comparedPart func expected data = part ↔ HasPart expected data part := by
  have hnames := truthy_funcName_iff hfunc
  unfold comparedPart
  cases part <;> unfold HasPart <;> rw [← hnames] <;>
    cases truthy func <;> cases truthy expected <;> cases truthy (index data (.str "result")) <;>
      cases truthy (index data (.str "error")) <;> decide

/-! ### The words of the text -/

theorem infix_entries2str {lib : ValueLib} {s : String} {v : Value} (h : (.str s, v) ∈ arguments) :
    s.toList <:+: (entries2str lib arguments).toList := by
  induction arguments with
  | nil => cases h
  | cons entry arguments ih =>
    obtain ⟨k, w⟩ := entry
    rw [entries2str, String.toList_append]
    rcases List.mem_cons.mp h with heq | hmem
    · cases heq
      refine List.infix_append_of_infix_left ⟨"[\"".toList, ("\"] = " ++ table2str lib v ++ ",").toList, ?_⟩
      simp [keyText]
    · exact List.infix_append_of_infix_right (ih hmem)

theorem hasWord_of_key {lib : ValueLib} {s : String} (h : isNil (index arguments (.str s)) = false) :
    hasWord (table2str lib (.table arguments)) s = true := by
  have hne : index arguments (.str s) ≠ .nil := by
    intro hnil
    rw [hnil] at h
    cases h
  rw [hasWord, table2str, String.toList_append, String.toList_append]
  exact decide_eq_true (List.infix_append_of_infix_left (List.infix_append_of_infix_right
    (infix_entries2str (mem_of_index_ne_nil hne))))

/-- The words stand for the part that the keys stand for. -/
theorem LinedUp.wordPart_eq (h : LinedUp env arguments data) :
    wordPart (table2str env.lib (.table arguments)) = keyPart arguments := by
  have hresult := h.result
  have herror := h.error
  unfold wordPart
  unfold keyPart at hresult herror ⊢
  cases hkey : isNil (index arguments (.str "result")) with
  | false => rw [hasWord_of_key hkey]; rfl
  | true =>
    rw [hkey] at hresult herror
    cases hkey' : isNil (index arguments (.str "error")) with
    | false =>
      rw [hkey'] at hresult
      rw [hresult.resolve_left nofun, hasWord_of_key hkey']
      rfl
    | true =>
      rw [hkey'] at hresult herror
      rw [hresult.resolve_left nofun, herror rfl]
      rfl

/-- Being lined up leaves out no more than the arguments of which another part is read and the responses of which
another part is compared. -/
theorem linedUp_iff (hfunc : funcName data = .ok func) : LinedUp env arguments data ↔
    wordPart (table2str env.lib (.table arguments)) = keyPart arguments ∧
      comparedPart func ((keyPart arguments).value arguments) data =
        correspondingPart data (keyPart arguments) := by
  rw [comparedPart_eq_iff hfunc]
  refine ⟨fun h => ⟨h.wordPart_eq, h.part⟩, fun ⟨hword, hpart⟩ => ⟨?_, ?_, hpart⟩⟩
  · unfold wordPart at hword
    split at hword
    · exact .inl hword.symm
    · exact .inr (Bool.eq_false_iff.mpr ‹_›)
  · intro hwhole
    rw [hwhole, wordPart] at hword
    split at hword
    · cases hword
    · split at hword
      · cases hword
      · exact Bool.eq_false_iff.mpr ‹_›

end Check

/-- If the words are the keys and the response has the part that is asked for, what is expected is found in the response
whenever the check returns `true`. -/
theorem hmiResponse_check_found (env : HmiEnv) {args : List Value} {occurences : Nat} {arguments data : Dict Key Value}
    (hargs : expectedArguments args occurences = .table arguments) (hlined : LinedUp env arguments data)
    {message : String} {params : Value}
    (hcheck : hmiResponseValid env args occurences data = .ok (true, message, params)) :
    FoundIn env.lib ((keyPart arguments).value arguments) data params (correspondingPart data (keyPart arguments)) := by
  rw [hmiResponseValid, hargs] at hcheck
  obtain ⟨func, hfunc, hfound⟩ := found_of_check hcheck
  obtain ⟨hword, hpart⟩ := (linedUp_iff hfunc).mp hlined
  rw [hword, hpart] at hfound
  exact hfound

/-! ### Example: three responses -/

namespace ResponseSample

def env : HmiEnv :=
  { lib := ⟨fun n => toString n.num, fun entries => entries.all fun e => e.1 matches .int _⟩
    hmiSchema := [("UI", { functions := fun _ => [("Show", [])], enum := [], struct := [] })]
    validateSchema := true }

/-- An error is expected whose message has the word `result`. -/
def wrongResult : Dict Key Value :=
  [(.str "error", .table [(.str "code", .num 4), (.str "message", .str "wrong result")])]

/-- A text is expected that has the word `error`. -/
def noErrors : Dict Key Value := [(.str "info", .str "no errors")]

def expected : Dict Key Value := [(.str "result", .table [(.str "code", .num 0)])]

def rejected : Dict Key Value := [(.str "result", .table [(.str "code", .num 4)])]

def success : Dict Key Value :=
  [(.str "id", .num 7), (.str "result", .table [(.str "code", .num 0), (.str "method", .str "UI.Show")])]

def failure : Dict Key Value :=
  [(.str "id", .num 7),
   (.str "error", .table [(.str "code", .num 4), (.str "data", .table [(.str "method", .str "UI.Show")])])]

end ResponseSample

open ResponseSample in
/-- A result that is expected, and came. -/
theorem hmiResponse_check_found_result : ∃ message params,
    hmiResponseValid env [.table noErrors, .table expected] 3 success = .ok (true, message, params) ∧
      FoundIn env.lib ((keyPart expected).value expected) success params
        (correspondingPart success (keyPart expected)) := by
  have hkey : keyPart expected = .result := by decide +kernel
  have hlined : LinedUp env expected success := by
    refine ⟨.inl hkey, ?_, ?_⟩
    · rw [hkey]
      nofun
    · rw [hkey]
      exact ⟨.result rfl rfl (by decide +kernel), by decide +kernel, by decide +kernel⟩
  have htrue : (hmiResponseValid env [.table noErrors, .table expected] 3 success).map (·.1) = .ok true := by
    decide +kernel
  obtain ⟨⟨res, message, params⟩, hcheck, hres⟩ := map_eq_ok.mp htrue
  cases hres
  exact ⟨message, params, hcheck, hmiResponse_check_found env rfl hlined hcheck⟩

open ResponseSample in
/-- An error that did not come, a text that is not there and a result in place of an error are accepted. -/
theorem hmiResponse_accepted :
    ((hmiResponseValid env [.table wrongResult] 1 success).map (·.1) = .ok true ∧
      ∀ params, ¬ FoundIn env.lib ((keyPart wrongResult).value wrongResult) success params
        (correspondingPart success (keyPart wrongResult))) ∧
    ((hmiResponseValid env [.table noErrors] 1 success).map (·.1) = .ok true ∧
      ∀ params, ¬ FoundIn env.lib ((keyPart noErrors).value noErrors) success params
        (correspondingPart success (keyPart noErrors))) ∧
    (hmiResponseValid env [.table rejected] 1 failure).map (·.1) = .ok true ∧
      ∀ params, ¬ FoundIn env.lib ((keyPart rejected).value rejected) failure params
        (correspondingPart failure (keyPart rejected)) := by
  have hparts : keyPart wrongResult = .error ∧ keyPart noErrors = .whole ∧ keyPart rejected = .result ∧
      correspondingPart success .whole = .result := by decide +kernel
  obtain ⟨h₁, h₂, h₃, h₄⟩ := hparts
  rw [h₁, h₂, h₃, h₄]
  refine ⟨⟨by decide +kernel, fun params => ?_⟩, ⟨by decide +kernel, fun params => ?_⟩, by decide +kernel,
    fun params => ?_⟩
  · change ¬ (compareValues env.lib (index wrongResult (.str "error")) (index success (.str "error")) "error").1 = true
    decide +kernel
  · change ¬ (compareValues env.lib (.table noErrors) (index success (.str "result")) "result").1 = true
    decide +kernel
  · change ¬ (compareValues env.lib (index rejected (.str "result")) (index failure (.str "result")) "result").1 = true
    decide +kernel

end Atf
