import Atf.Expectations

/-!
# Raising an event (`event_dispatcher.lua`)

`raiseEvent` is `RaiseEvent` for data that finds this expectation: the count, the validations, the actions
of `Do` in their order, and only then `validate`. The actions see the expectation as the validations left
it, and may change the world `W` around it.
-/

namespace Atf

abbrev Action (W D : Type) := ExpectationData → D → W → W

/-- An expectation in the dispatcher: the `matches` function of its event, and its actions. -/
structure Handler (W D : Type) where
  matchesData : W → D → Bool
  exp : Expectation D
  actions : List (Action W D)

namespace Handler
variable {W D : Type}

def action (self : Handler W D) (exp : ExpectationData) (data : D) (w : W) : W :=
  self.actions.foldl (fun w action => action exp data w) w

def raiseEvent (checkAllValidations : Option Bool) (timestamp : Int) (data : D) (self : Handler W D) (w : W) :
    Handler W D × W :=
  if self.matchesData w data then
    let exp := (self.exp.occur checkAllValidations (some data)).1
    let w := self.action exp.toExpectationData data w
    ({ self with exp := exp.validate checkAllValidations timestamp }, w)
  else (self, w)

def doAction (self : Handler W D) (func : Action W D) : Handler W D :=
  { self with actions := self.actions ++ [func] }

end Handler

end Atf
