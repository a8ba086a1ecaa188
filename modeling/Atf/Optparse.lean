import Atf.Lib.Entries
import Atf.Lib.LuaPattern

/-!
# Options of a command line (`std/optparse.lua`)

`on` registers the spellings of an option, `normalise` takes the arguments apart and `parse` runs the handler
of every option in turn. An option that requires an argument takes the next one whatever it looks like: one that
is written with its argument stays one, and a dash in front of the argument stays there (`normalise_written`).
-/

namespace Atf
open Lua

namespace Optparse

/-- How a run ends before its result: the program exits, or an error is raised. -/
inductive Stop
  | exit (code : Int)
  | error
deriving DecidableEq, Repr

inductive Handler
  | required
  | optional
  | flag
  | finished
deriving DecidableEq, Repr

/-- What a handler stores with an option. -/
inductive Arg
  | text (t : Text)
  | bool (b : Bool)
deriving DecidableEq, Repr

/-- The value of an option: the arguments of one that was given several times are in a table. -/
inductive OptValue
  | one (a : Arg)
  | table (as : List Arg)
deriving DecidableEq, Repr

/-- `self[opt]`; a value given to `on` is one of the application's functions. -/
structure Opt (ν : Type) where
  key : Text
  handler : Handler
  value : Option ν
deriving DecidableEq, Repr

/-- The options that an object has as fields, the latest registration first. -/
structure OptionParser (ν : Type) where
  options : List (Text × Opt ν)
deriving DecidableEq, Repr

variable {ν σ : Type}

def OptionParser.opt (self : OptionParser ν) (opt : Text) : Option (Opt ν) := self.options.lookup opt

/-! ### Registration -/

/-- The options that a specification names, with their dashes. -/
def normal (optspec : Text) : List Text :=
  ((optspec.splitOnP isSpace).filter (· ≠ [])).flatMap fun opt =>
    let opt := if opt.length = 1 then '-' :: opt else if opt.head? ≠ some '-' then '-' :: '-' :: opt else opt
    match opt with
    | '-' :: c :: rest => if c = '-' then [opt] else (c :: rest).map fun c => ['-', c]
    | _ => [opt]

def key (opt : Text) : Text := (opt.dropWhile (· = '-')).map fun c => if matchClass 'W' c then '-' else c

def on (self : OptionParser ν) (opts : List Text) (handler : Handler) (value : Option ν) :
    Except Stop (OptionParser ν) :=
  let normal := opts.flatMap normal
  match normal.getLast? with
  | none => .error .error
  | some last => .ok ⟨normal.map (·, ⟨key last, handler, value⟩) ++ self.options⟩

/-! ### Normalised arguments -/

/-- The options behind the dash of a joined short option; `none` if one of them is unknown. -/
def split (self : OptionParser ν) : Text → Option (List Text)
  | [] => some []
  | c :: rest =>
    match self.opt ['-', c] with
    | none => none
    | some o =>
      if o.handler = .optional ∨ o.handler = .required then some [['-', c], rest]
      else (split self rest).map (['-', c] :: ·)

def normaliseOpt (self : OptionParser ν) : Text → List Text
  | '-' :: '-' :: opt =>
    let optname := '-' :: '-' :: opt.takeWhile (· ≠ '=')
    match opt.dropWhile (· ≠ '=') with
    | [] => ['-' :: '-' :: opt]
    | _ :: optarg => if (self.opt optname).isSome then [optname, optarg] else ['-' :: '-' :: opt]
  | '-' :: opt => if 1 < opt.length then (split self opt).getD ['-' :: opt] else ['-' :: opt]
  | opt => [opt]

def normalise (self : OptionParser ν) (arglist : List Text) : List Text := arglist.flatMap (normaliseOpt self)

/-! ### Parsing -/

structure State (σ : Type) where
  unrecognised : List Text
  opts : Entries Text OptValue
  app : σ

/-- `set` -/
def State.set (s : State σ) (key : Text) (value : Option Arg) : State σ :=
  match s.opts.get key, value with
  | some (.table as), some a => { s with opts := s.opts.set key (.table (as ++ [a])) }
  | some (.one a), value => { s with opts := s.opts.set key (.table (a :: value.toList)) }
  | none, some a => { s with opts := s.opts.set key (.one a) }
  | _, none => s

/-- The function of an option is called with its key, its spelling and the argument, and what it returns is stored. -/
abbrev Call (ν σ : Type) := ν → (key : Text) → (opt : Option Text) → Option Arg → σ → σ × Option Arg

def State.called (call : Call ν σ) (s : State σ) (o : Opt ν) (f : ν) (opt : Option Text) (arg : Option Arg) : State σ :=
  let (app, value) := call f o.key opt arg s.app
  { s with app := app }.set o.key value

def State.insert (s : State σ) (args : List Text) : State σ := { s with unrecognised := s.unrecognised ++ args }

/-- `required` with the argument that follows. -/
def required (call : Call ν σ) (o : Opt ν) (opt arg : Text) (s : State σ) : State σ :=
  match o.value with
  | some f => s.called call o f (some opt) (some (.text arg))
  | none => s.set o.key (some (.text arg))

/-- `optional` without an argument; what it passes as the spelling is a global that nothing sets. -/
def optional (call : Call ν σ) (o : Opt ν) (s : State σ) : State σ :=
  match o.value with
  | some f => s.called call o f none none
  | none => s.set o.key (some (.bool true))

def flag (call : Call ν σ) (o : Opt ν) (opt : Text) (s : State σ) : State σ :=
  match o.value with
  | some f => s.called call o f (some opt) (some (.bool true))
  | none => { s with opts := s.opts.set o.key (.one (.bool true)) }

/-- `^[^%-]` -/
def plain (arg : Text) : Bool := arg.head?.any (· ≠ '-')

/-- The loop of `parse`, over the normalised arguments. `member` are the names of the fields and methods of the
object that are no options. -/
def parseArgs (self : OptionParser ν) (member : Text → Bool) (call : Call ν σ) :
    List Text → State σ → Except Stop (State σ)
  | [], s => .ok s
  | opt :: rest, s =>
    match self.opt opt with
    | none =>
      -- `self[opt]` is then no table with a handler
      if member opt then .error .error
      else match rest with
        | [] => .ok (s.insert [opt])
        | next :: rest =>
          if plain next then parseArgs self member call rest (s.insert [opt, next])
          else parseArgs self member call (next :: rest) (s.insert [opt])
    | some o =>
      match o.handler with
      | .finished => .ok (s.insert rest)
      | .flag => parseArgs self member call rest (flag call o opt s)
      | .required =>
        match rest with
        | [] => .error (.exit 2)
        | arg :: rest => parseArgs self member call rest (required call o opt arg s)
      | .optional =>
        match rest with
        | [] => .ok (optional call o s)
        | arg :: rest =>
          if arg.head? ≠ some '-' then parseArgs self member call rest (required call o opt arg s)
          else parseArgs self member call (arg :: rest) (optional call o s)

def parse (self : OptionParser ν) (member : Text → Bool) (call : Call ν σ) (arglist : List Text) (app : σ) :
    Except Stop (State σ) :=
  parseArgs self member call (normalise self arglist) ⟨[], .empty, app⟩

/-! ### Arguments as they are written -/

section Normalise
variable {self : OptionParser ν} {name v : Text}

/-- An option that requires an argument, as it is written. -/
inductive Written
  | assign (opt value : Text)
  | next (opt value : Text)
deriving DecidableEq, Repr

def Written.opt : Written → Text
  | .assign opt _ => opt
  | .next opt _ => opt

def Written.value : Written → Text
  | .assign _ value => value
  | .next _ value => value

def Written.render : Written → List Text
  | .assign opt value => [opt ++ '=' :: value]
  | .next opt value => [opt, value]

/-- The spelling is registered and goes through unchanged; only a long option takes its argument behind `=`. -/
def Written.Spelled (self : OptionParser ν) : Written → Prop
  | .assign opt _ => (self.opt opt).isSome ∧ '=' ∉ opt ∧ ['-', '-'].IsPrefix opt
  | .next opt _ => (self.opt opt).isSome ∧ normaliseOpt self opt = [opt]

theorem normaliseOpt_assign (hopt : (self.opt name).isSome) (heq : '=' ∉ name) (hdash : ['-', '-'].IsPrefix name) :
    normaliseOpt self (name ++ '=' :: v) = [name, v] := by
  obtain ⟨name, rfl⟩ := hdash
  have hname : ∀ c ∈ name, decide (c ≠ '=') = true := fun c hc =>
    decide_eq_true fun h => heq (h ▸ List.mem_append_right _ hc)
  have htake : (name ++ '=' :: v).takeWhile (· ≠ '=') = name :=
    (List.takeWhile_append_of_pos hname).trans (by simp)
  have hdrop : (name ++ '=' :: v).dropWhile (· ≠ '=') = '=' :: v :=
    (List.dropWhile_append_of_pos hname).trans (by simp)
  show normaliseOpt self ('-' :: '-' :: (name ++ '=' :: v)) = _
  rw [normaliseOpt]
  simp only [htake, hdrop]
  exact if_pos hopt

theorem normaliseOpt_of_head (h : v.head? ≠ some '-') : normaliseOpt self v = [v] := by
  unfold normaliseOpt
  split <;> first | rfl | simp at h

/-- What an argument with a dash becomes begins with a dash. -/
theorem normaliseOpt_head (self : OptionParser ν) (h : v.head? = some '-') :
    ∃ first rest, normaliseOpt self v = first :: rest ∧ first.head? = some '-' := by
  unfold normaliseOpt
  split
  · dsimp only
    split
    · exact ⟨_, _, rfl, rfl⟩
    · split
      · exact ⟨_, _, rfl, rfl⟩
      · exact ⟨_, _, rfl, rfl⟩
  · split
    · rename_i opt _ hlen
      cases hs : split self opt with
      | none => exact ⟨_, _, rfl, rfl⟩
      | some l =>
        cases opt with
        | nil => simp at hlen
        | cons c cs =>
          rw [split] at hs
          split at hs
          · cases hs
          · split at hs
            · cases hs
              exact ⟨_, _, rfl, rfl⟩
            · obtain ⟨l', -, rfl⟩ := Option.map_eq_some_iff.mp hs
              exact ⟨_, _, rfl, rfl⟩
    · exact ⟨_, _, rfl, rfl⟩
  · exact ⟨v, [], rfl, h⟩

theorem normalise_cons (opt : Text) (l : List Text) :
    normalise self (opt :: l) = normaliseOpt self opt ++ normalise self l :=
  List.flatMap_cons

/-- A written option stays an option with an argument, and a dash in front of the value stays there. -/
theorem normalise_written {w : Written} (h : w.Spelled self) (rest : List Text) :
    ∃ arg more, normalise self (w.render ++ rest) = w.opt :: arg :: more ++ normalise self rest ∧
      arg.head? = w.value.head? ∧ (w.value.head? ≠ some '-' → arg = w.value ∧ more = []) := by
  cases w with
  | assign opt value =>
    refine ⟨value, [], ?_, rfl, fun _ => ⟨rfl, rfl⟩⟩
    rw [Written.render, List.singleton_append, normalise_cons, normaliseOpt_assign h.1 h.2.1 h.2.2]
    rfl
  | next opt value =>
    by_cases hv : value.head? = some '-'
    · obtain ⟨arg, more, hvalue, harg⟩ := normaliseOpt_head self hv
      refine ⟨arg, more, ?_, harg.trans hv.symm, fun hne => absurd hv hne⟩
      rw [Written.render, List.cons_append, List.singleton_append, normalise_cons, normalise_cons, h.2, hvalue]
      rfl
    · refine ⟨value, [], ?_, rfl, fun _ => ⟨rfl, rfl⟩⟩
      rw [Written.render, List.cons_append, List.singleton_append, normalise_cons, normalise_cons, h.2,
        normaliseOpt_of_head hv]
      rfl

end Normalise

/-! ### The loop -/

section Loop
variable {self : OptionParser ν} {member : Text → Bool} {call : Call ν σ} {I : State σ → Prop}

theorem parseArgs_required {opt arg : Text} {o : Opt ν} {rest : List Text} {s : State σ} (ho : self.opt opt = some o)
    (hrequired : o.handler = .required) : parseArgs self member call (opt :: arg :: rest) s =
      parseArgs self member call rest (required call o opt arg s) := by
  rw [parseArgs, ho]
  simp only [hrequired]

theorem parseArgs_flag {opt : Text} {o : Opt ν} {rest : List Text} {s : State σ} (ho : self.opt opt = some o)
    (hflag : o.handler = .flag) :
    parseArgs self member call (opt :: rest) s = parseArgs self member call rest (flag call o opt s) := by
  rw [parseArgs.eq_def]
  simp only [ho, hflag]

/-- An argument that is no option, and the one behind it. -/
theorem parseArgs_positional {opt next : Text} {rest : List Text} {s : State σ} (ho : self.opt opt = none)
    (hmember : member opt = false) (hnext : plain next = true) :
    parseArgs self member call (opt :: next :: rest) s =
      parseArgs self member call rest (s.insert [opt, next]) := by
  rw [parseArgs, ho]
  simp only [hmember, hnext, Bool.false_eq_true, if_false, if_true]

/-- What every handler keeps, the loop keeps. -/
theorem parseArgs_invariant (hinsert : ∀ s args, I s → I (s.insert args))
    (hrequired : ∀ opt o arg s, self.opt opt = some o → (o.handler = .required ∨ o.handler = .optional) → I s →
      I (required call o opt arg s))
    (hoptional : ∀ opt o s, self.opt opt = some o → o.handler = .optional → I s → I (optional call o s))
    (hflag : ∀ opt o s, self.opt opt = some o → o.handler = .flag → I s → I (flag call o opt s))
    {args : List Text} {s s' : State σ} (h : parseArgs self member call args s = .ok s') (hstart : I s) : I s' := by
  fun_induction parseArgs self member call args s <;> grind

end Loop

end Optparse
end Atf
