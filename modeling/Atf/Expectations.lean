import Atf.Lib.Lua

/-!
# Expectations (`expectations.lua`, `cardinalities.lua`)

An expectation counts its occurrences. The functions given to `ValidIf` look at each occurrence and only
record that one of them failed (`isAtLeastOneFail`); `validate` turns the count, the age and this record
into a status. The list `after` of the source is never filled, so its sequence check is not here, and the
actions of `Do` stand with the dispatcher that runs them.
-/

namespace Atf
open Lua

/-! ### Cardinalities -/

structure Cardinality where
  lower : Int
  upper : Option Int
deriving DecidableEq, Repr

def AnyNumber : Cardinality := ⟨0, none⟩

def AtLeast (num : Int) : LuaM Cardinality :=
  if num ≤ 0 then .error "AtLeast: number must be greater than 0" else .ok ⟨num, none⟩

def AtMost (num : Int) : LuaM Cardinality :=
  if num ≤ 0 then .error "AtMost: number must be greater than 0" else .ok ⟨0, some num⟩

def Between (a b : Int) : LuaM Cardinality :=
  if a > b then .error "Between: `from' must be less than `to'" else .ok ⟨a, some b⟩

def Exactly (num : Int) : Cardinality := ⟨num, some num⟩

/-! ### Expectations -/

inductive Status
  | FAILED | SUCCESS
deriving DecidableEq, Repr

/-- The fields of an expectation that its `ValidIf` functions can read. -/
structure ExpectationData where
  name : String
  timesLE : Int
  timesGE : Option Int
  ts : Int
  timeout : Int
  occurences : Nat
  errorMessage : Dict String String
  warningMessage : Dict String String
  pinned : Bool
  isAtLeastOneFail : Bool
  isDelayNeedsToBeApplied : Bool
  status : Option Status

/-- A function given to `ValidIf`: whether the data is valid, and a message. -/
abbrev Validation (D : Type) := ExpectationData → D → Bool × Option String

structure Expectation (D : Type) extends ExpectationData where
  verifyData : List (Validation D)

namespace Expectation
variable {D : Type}

def new (name : String) (ts : Int) : Expectation D :=
  { name, timesLE := 1, timesGE := some 1, ts, timeout := 11500, occurences := 0
    errorMessage := [], warningMessage := [], pinned := false, isAtLeastOneFail := false
    isDelayNeedsToBeApplied := false, status := none, verifyData := [] }

/-- `Times`; a number `n` stands for `Exactly(n)`. -/
def times (self : Expectation D) (c : Cardinality) : Expectation D :=
  { self with
    timesLE := c.lower, timesGE := c.upper
    isDelayNeedsToBeApplied := self.isDelayNeedsToBeApplied || (c.lower == 0 && c.upper == some 0) }

def setTimeout (self : Expectation D) (ms : Int) : Expectation D := { self with timeout := ms }

def validIf (self : Expectation D) (func : Validation D) : Expectation D :=
  { self with verifyData := self.verifyData ++ [func] }

/-- A message is appended on a line of its own, unless it is missing or empty. -/
def appendMsg (text : String) : Option String → String
  | some msg => if msg = "" then text else text ++ "\n" ++ msg
  | none => text

/-- The function that `ValidIf` stores, with what `func` returned. -/
def verify (self : Expectation D) (valid : Bool) (msg : Option String) : Expectation D :=
  if !valid then
    { self with
      isAtLeastOneFail := true
      errorMessage := self.errorMessage.set "ValidIf" (appendMsg ((self.errorMessage.get "ValidIf").getD "") msg) }
  else
    match msg with
    | none => self
    | some "" => self
    | some text => { self with
        warningMessage := self.warningMessage.set "WARNING"
          (appendMsg ((self.warningMessage.get "WARNING").getD "") (some text)) }

/-- The loop over `verifyData` in `RaiseEvent`, with what the functions called have returned. -/
def verifyAll (checkAllValidations : Option Bool) (data : D) :
    List (Validation D) → Expectation D → Expectation D × List Bool
  | [], self => (self, [])
  | func :: funcs, self =>
    let (valid, msg) := func self.toExpectationData data
    let self := self.verify valid msg
    if checkAllValidations == some false && self.isAtLeastOneFail then (self, [valid])
    else
      let (self, returned) := verifyAll checkAllValidations data funcs self
      (self, valid :: returned)

/-- An occurrence up to the actions: the count, and the validations when there is data. -/
def occur (checkAllValidations : Option Bool) (data : Option D) (self : Expectation D) :
    Expectation D × List Bool :=
  let self := { self with occurences := self.occurences + 1 }
  match data with
  | some data => verifyAll checkAllValidations data self.verifyData self
  | none => (self, [])

def checkValidations (checkAllValidations : Option Bool) (self : Expectation D) : Expectation D :=
  if self.isAtLeastOneFail && (checkAllValidations == some false || self.timesGE == none ||
      self.timesGE == some (self.occurences : Int)) then
    { self with status := some .FAILED }
  else self

def checkTimeout (timestamp : Int) (self : Expectation D) : Expectation D :=
  if self.status == none && decide (timestamp - self.ts > self.timeout) then
    { self with
      status := some .FAILED
      errorMessage := self.errorMessage.set "Timeout" (self.name ++ ": Timeout expired") }
  else self

def exceeded (self : Expectation D) : Bool :=
  match self.timesGE with
  | some upper => decide ((self.occurences : Int) > upper)
  | none => false

def checkTimes (self : Expectation D) : Expectation D :=
  if (self.occurences : Int) ≥ self.timesLE then
    if self.exceeded then
      { self with
        status := some .FAILED
        errorMessage := self.errorMessage.set "Times" "The most allowed occurences boundary exceed" }
    else if self.status == none then { self with status := some .SUCCESS }
    else self
  else self

def validate (checkAllValidations : Option Bool) (timestamp : Int) (self : Expectation D) : Expectation D :=
  ((self.checkValidations checkAllValidations).checkTimeout timestamp).checkTimes

end Expectation

end Atf
