import Atf.Lib.LuaValue

/-!
# Comparison of tables (`compareValues` in `atf/util.lua`)

`compareIter` is its local function `iter`, which adds to the list of messages; a comparison that has
failed stops looking at further keys of the same table.
-/

namespace Atf
open Lua

/-- The branch of `iter` for values that are not both tables. -/
def compareLeaf (lib : ValueLib) (a b : Value) (name : String) (msg : List String) : Bool × List String :=
  let equal (b : Value) : Bool × List String :=
    if a.rawEqual b then (true, msg)
    else (false, msg ++ [name ++ ": expected: " ++ a.tostring lib ++ ", actual value: " ++ b.tostring lib])
  if a.type = b.type then equal b
  else if a.type = "string" ∧ b.type = "number" then equal (.str (b.tostring lib))
  else
    (false, msg ++ ["type of data " ++ name ++ ": expected " ++ a.type ++ ", actual type: " ++ b.type])

mutual

def compareIter (lib : ValueLib) : Value → Value → String → List String → Bool × List String
  | .table a, .table b, name, msg =>
    if border a ≠ border b then
      compareEntries lib a b name false
        (msg ++ ["number of array elements " ++ name ++ ": expected " ++ toString (border a) ++ ", actual: " ++
          toString (border b)])
    else compareEntries lib a b name true msg
  | a, b, name, msg => compareLeaf lib a b name msg

def compareEntries (lib : ValueLib) :
    List (Key × Value) → List (Key × Value) → String → Bool → List String → Bool × List String
  | [], _, _, res, msg => (res, msg)
  | (k, v) :: a, b, name, res, msg =>
    if res then
      let (res, msg) := compareIter lib v (index b k) (name ++ "." ++ k.toString) msg
      compareEntries lib a b name res msg
    else compareEntries lib a b name false msg

end

def compareValues (lib : ValueLib) (a b : Value) (name : String) : Bool × String :=
  let (res, message) := compareIter lib a b name []
  (res, "\n".intercalate message)

end Atf
