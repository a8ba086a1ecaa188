import Atf.Lib.Lua

/-!
# Patterns of the Lua string library

`string.find` and `string.gsub` for patterns without captures, `%b` and `%f`, with which a pattern is refused
here: single character classes with their repetitions, `^` in front and `$` at the end. A match returns what
is left of the text, and a repetition tries the longest run first, or the shortest for `-`. A text is a list
with one character for each byte; only the ASCII characters belong to the classes.
-/

namespace Lua

abbrev Text := List Char

/-! ### Character classes -/

inductive SetItem
  | range (lo hi : Char)
  | letter (c : Char)
deriving DecidableEq, Repr

inductive CharClass
  | any
  | char (c : Char)
  -- `%c`
  | letter (c : Char)
  | set (negated : Bool) (items : List SetItem)
deriving DecidableEq, Repr

def isSpace (c : Char) : Bool := c ∈ [' ', '\t', '\n', '\x0b', '\x0c', '\r']

def isGraph (c : Char) : Bool := ' ' < c && c < '\x7f'

/-- `match_class`: the class of the letter, which is complemented if it is a capital; other characters stand for
themselves. -/
def matchClass (letter c : Char) : Bool :=
  let classOf : Option Bool :=
    match letter.toLower with
    | 'a' => some c.isAlpha
    | 'c' => some (c < ' ' || c = '\x7f')
    | 'd' => some c.isDigit
    | 'g' => some (isGraph c)
    | 'l' => some c.isLower
    | 'p' => some (isGraph c && !c.isAlphanum)
    | 's' => some (isSpace c)
    | 'u' => some c.isUpper
    | 'w' => some c.isAlphanum
    | 'x' => some (c.isDigit || 'a' ≤ c.toLower && c.toLower ≤ 'f')
    | 'z' => some (c = '\x00')
    | _ => none
  match classOf with
  | some b => if letter.isUpper then !b else b
  | none => letter = c

def SetItem.test : SetItem → Char → Bool
  | .range lo hi, c => lo ≤ c && c ≤ hi
  | .letter l, c => matchClass l c

def CharClass.test : CharClass → Char → Bool
  | .any, _ => true
  | .char c, c' => c = c'
  | .letter l, c => matchClass l c
  | .set negated items, c => items.any (·.test c) != negated

/-! ### Patterns -/

inductive Repeat
  | one | star | plus | minus | optional
deriving DecidableEq, Repr

structure Pattern where
  anchored : Bool
  items : List (CharClass × Repeat)
  -- the pattern ends with `$`
  atEnd : Bool
deriving DecidableEq, Repr

/-- The text of a set up to its closing bracket, and what follows. Its first character does not close it. -/
def setBody : (first : Bool) → Text → Option (Text × Text)
  | _, [] => none
  | false, ']' :: rest => some ([], rest)
  | _, '%' :: c :: rest => (setBody false rest).map fun (body, rest) => ('%' :: c :: body, rest)
  | _, c :: rest => (setBody false rest).map fun (body, rest) => (c :: body, rest)

def setItems : Text → List SetItem
  | [] => []
  | '%' :: c :: rest => .letter c :: setItems rest
  | lo :: '-' :: hi :: rest => .range lo hi :: setItems rest
  | c :: rest => .range c c :: setItems rest

def compileSet (negated : Bool) (p : Text) : LuaM (CharClass × Text) :=
  match setBody true p with
  | some (body, rest) => .ok (.set negated (setItems body), rest)
  | none => .error "malformed pattern (missing ']')"

def compileClass : Text → LuaM (CharClass × Text)
  | [] => .error "malformed pattern"
  | ['%'] => .error "malformed pattern (ends with '%')"
  | '%' :: c :: rest =>
    if c = 'b' || c = 'f' || c.isDigit then .error "pattern item not supported" else .ok (.letter c, rest)
  | '(' :: _ => .error "captures not supported"
  | ')' :: _ => .error "captures not supported"
  | '[' :: '^' :: rest => compileSet true rest
  | '[' :: rest => compileSet false rest
  | '.' :: rest => .ok (.any, rest)
  | c :: rest => .ok (.char c, rest)

def compileRepeat : Text → Repeat × Text
  | '*' :: rest => (.star, rest)
  | '+' :: rest => (.plus, rest)
  | '-' :: rest => (.minus, rest)
  | '?' :: rest => (.optional, rest)
  | rest => (.one, rest)

/-- The items of a pattern that is no longer than the fuel. -/
def compileItems : (fuel : Nat) → Text → LuaM (List (CharClass × Repeat) × Bool)
  | 0, _ => .ok ([], false)
  | _ + 1, [] => .ok ([], false)
  | fuel + 1, p =>
    if p = ['$'] then .ok ([], true)
    else do
      let (cls, rest) ← compileClass p
      let (rep, rest) := compileRepeat rest
      let (items, atEnd) ← compileItems fuel rest
      return ((cls, rep) :: items, atEnd)

def compile : Text → LuaM Pattern
  | '^' :: p => (compileItems p.length p).map fun (items, atEnd) => ⟨true, items, atEnd⟩
  | p => (compileItems p.length p).map fun (items, atEnd) => ⟨false, items, atEnd⟩

/-! ### Matching -/

/-- Up to as many characters of the class as there are, then `k`. -/
def maxExpand (cls : CharClass) (k : Text → Option Text) : Text → Option Text
  | [] => k []
  | c :: s => if cls.test c then maxExpand cls k s <|> k (c :: s) else k (c :: s)

/-- As few characters of the class as possible, then `k`. -/
def minExpand (cls : CharClass) (k : Text → Option Text) : Text → Option Text
  | [] => k []
  | c :: s => k (c :: s) <|> if cls.test c then minExpand cls k s else none

def matchOne (cls : CharClass) (k : Text → Option Text) : Text → Option Text
  | [] => none
  | c :: s => if cls.test c then k s else none

/-- The text after a match of the items at the start of a text. -/
def doMatch (atEnd : Bool) : List (CharClass × Repeat) → Text → Option Text
  | [], s => if atEnd && !s.isEmpty then none else some s
  | (cls, .one) :: items, s => matchOne cls (doMatch atEnd items) s
  | (cls, .star) :: items, s => maxExpand cls (doMatch atEnd items) s
  | (cls, .plus) :: items, s => matchOne cls (maxExpand cls (doMatch atEnd items)) s
  | (cls, .minus) :: items, s => minExpand cls (doMatch atEnd items) s
  | (cls, .optional) :: items, s => matchOne cls (doMatch atEnd items) s <|> doMatch atEnd items s

/-- The first place where the items match: the text from there on, and the text after the match. -/
def search (p : Pattern) : Text → Option (Text × Text)
  | [] => (doMatch p.atEnd p.items []).map fun rest => ([], rest)
  | c :: s =>
    match doMatch p.atEnd p.items (c :: s) with
    | some rest => some (c :: s, rest)
    | none => if p.anchored then none else search p s

/-- `string.find(s, pattern)` -/
def find (s pattern : Text) : LuaM (Option (Text × Text)) := (compile pattern).map fun p => search p s

/-- A replacement string at a match of the whole text `whole`. -/
def expandReplacement (whole : Text) : Text → LuaM Text
  | [] => .ok []
  | ['%'] => .error "invalid use of '%' in replacement string"
  | '%' :: c :: repl => do
    let head ←
      if c = '%' then .ok ['%']
      else if c = '0' || c = '1' then .ok whole
      else if c.isDigit then .error "invalid capture index"
      else .error "invalid use of '%' in replacement string"
    let tail ← expandReplacement whole repl
    return head ++ tail
  | c :: repl => (expandReplacement whole repl).map (c :: ·)

/-- `string.gsub(s, pattern, repl)` for a pattern that is anchored, which replaces at most once. -/
def gsubAnchored (s pattern repl : Text) : LuaM Text := do
  let p ← compile pattern
  match doMatch p.atEnd p.items s with
  | some rest => (expandReplacement (s.take (s.length - rest.length)) repl).map (· ++ rest)
  | none => return s

end Lua
