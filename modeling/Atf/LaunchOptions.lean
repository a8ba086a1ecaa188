import Atf.Optparse
import Mathlib.Data.List.Induction

/-!
# The options of a run (`launch.lua`, `argument_parser.lua`, `Util.commandLine`)

`launch.lua` declares its options, `getopt` reads the arguments of the program and `parse_cmdl` overwrites the
configuration with what was given.
-/

namespace Atf
open Lua Optparse

namespace LaunchOptions

/-! ### `argument_parser.lua` -/

inductive ArgumentType
  | RequiredArgument
  | OptionalArgument
  | NoArgument

/-- The functions that options are registered with. -/
inductive Callback
  | checkReqOpt
  | PrintUsage
  | PrintVersion
deriving DecidableEq, Repr

/-- The variables of the module, and of the interpreter that `quit` sets. -/
structure ArgState where
  validOptList : Entries Text OptValue
  -- the messages printed
  errors : List Text
  quitCalled : Bool
  retCode : Int

namespace exit_codes
def wrong_arg : Int := 3
end exit_codes

def ArgState.init : ArgState := ⟨.empty, [], false, 0⟩

/-- `quit(code)`: the script goes on. -/
def quit (code : Option Int) (s : ArgState) : ArgState := { s with quitCalled := true, retCode := code.getD s.retCode }

def errmsg (msg : Text) (s : ArgState) : ArgState :=
  quit (some exit_codes.wrong_arg)
    { s with errors := s.errors ++ [if msg.getLast? = some '.' then msg else msg ++ ['.']] }

def PrintUsage (s : ArgState) : ArgState := quit none s

def PrintVersion (s : ArgState) : ArgState := quit none s

def checkReqOpt (key opt val : Text) (s : ArgState) : ArgState :=
  if val.head? = some '-' then
    quit (some exit_codes.wrong_arg) (errmsg ("Option '".toList ++ opt ++ "' requires an argument.".toList) s)
  else { s with validOptList := s.validOptList.set key (.one (.text val)) }

/-- None of the functions returns a value, and the required option that `checkReqOpt` checks has an argument. -/
def call : Call Callback ArgState
  | .checkReqOpt, key, some opt, some (.text val), s => (checkReqOpt key opt val s, none)
  | .checkReqOpt, _, _, _, s => (s, none)
  | .PrintUsage, _, _, _, s => (PrintUsage s, none)
  | .PrintVersion, _, _, _, s => (PrintVersion s, none)

def declare_opt (optparser : OptionParser Callback) (shortname longname : String) :
    ArgumentType → Except Stop (OptionParser Callback)
  | .RequiredArgument => on optparser [shortname.toList, longname.toList] .required (some .checkReqOpt)
  | .OptionalArgument => on optparser [shortname.toList, longname.toList] .optional none
  | .NoArgument => on optparser [shortname.toList, longname.toList] .flag none

def declare_long_opt (optparser : OptionParser Callback) (longname : String) (argument : ArgumentType) :
    Except Stop (OptionParser Callback) := declare_opt optparser "" longname argument

/-- The options that `getopt` registers itself. -/
def helpOptions (optparser : OptionParser Callback) : Except Stop (OptionParser Callback) := do
  let optparser ← on optparser ["--".toList] .finished none
  let optparser ← on optparser ["-?".toList] .optional (some .PrintUsage)
  let optparser ← on optparser ["-h".toList, "--help".toList] .optional (some .PrintUsage)
  on optparser ["-v".toList, "--version".toList] .optional (some .PrintVersion)

inductive ArgKey
  | index (n : Nat)
  | name (key : Text)
deriving DecidableEq, Repr

abbrev Arguments := Entries ArgKey OptValue

/-- `table.merge(validOptList, options)` -/
def merge (validOptList options : Entries Text OptValue) : Arguments :=
  (validOptList.toList ++ options.toList).foldl (fun res p => res.set (.name p.1) p.2) .empty

/-- `table.insert(res, arg)` for each of the texts. -/
def insertAll (res : Arguments) (args : List Text) : Arguments :=
  (args.zipIdx 1).foldl (fun res p => res.set (.index p.2) (.one (.text p.1))) res

def getopt (optparser : OptionParser Callback) (member : Text → Bool) (argv : List Text) :
    Except Stop (ArgState × Option Arguments) := do
  let start := if argv = [] then PrintUsage .init else .init
  let optparser ← helpOptions optparser
  let parsed ← parse optparser member call argv start
  match parsed.unrecognised.find? (·.head? = some '-') with
  | some opt => .ok (errmsg ("undefined option: '".toList ++ opt ++ "'".toList) parsed.app, none)
  | none => .ok (parsed.app, some (insertAll (merge parsed.app.validOptList parsed.opts) parsed.unrecognised))

/-! ### `launch.lua` -/

def declareOptions : Except Stop (OptionParser Callback) := do
  let p ← declare_opt ⟨[]⟩ "-c" "--config" .RequiredArgument
  let p ← declare_long_opt p "--mobile-connection" .RequiredArgument
  let p ← declare_long_opt p "--mobile-connection-port" .RequiredArgument
  let p ← declare_long_opt p "--hmi-connection" .RequiredArgument
  let p ← declare_long_opt p "--hmi-connection-port" .RequiredArgument
  let p ← declare_long_opt p "--perflog-connection" .RequiredArgument
  let p ← declare_long_opt p "--perflog-connection-port" .RequiredArgument
  let p ← declare_long_opt p "--report-path" .RequiredArgument
  let p ← declare_long_opt p "--report-mark" .RequiredArgument
  let p ← declare_long_opt p "--storeFullSDLLogs" .NoArgument
  let p ← declare_long_opt p "--heartbeat" .RequiredArgument
  let p ← declare_long_opt p "--sdl-core" .RequiredArgument
  let p ← declare_long_opt p "--report-mark" .RequiredArgument
  let p ← declare_long_opt p "--security-protocol" .RequiredArgument
  let p ← declare_long_opt p "--sdl-src" .RequiredArgument
  let p ← declare_long_opt p "--sdl-mobile-api" .RequiredArgument
  declare_long_opt p "--sdl-hmi-api" .RequiredArgument

/-! ### `Util.commandLine` -/

/-- What a field of the configuration holds; a table is not looked into. -/
inductive Setting
  | text (t : Text)
  | bool (b : Bool)
  | number (n : Rat)
  | table
deriving DecidableEq, Repr

abbrev Config := Table String Setting

def setting : OptValue → Setting
  | .one (.text t) => .text t
  | .one (.bool b) => .bool b
  | .table _ => .table

/-- `a..b`; neither operand is a number here. -/
def concat : Option Setting → Option Setting → Except Stop Setting
  | some (.text a), some (.text b) => .ok (.text (a ++ b))
  | _, _ => .error .error

/-- `config.field ~= "" and config.field ~= nil` -/
def isGiven (config : Config) (field : String) : Bool := config field ≠ some (.text []) && config field ≠ none

abbrev CommandLineFunction := Config → Setting → Except Stop Config

def overwrite (field : String) : CommandLineFunction := fun config str => .ok (config.set field str)

namespace commandLine

/-- Sets a global that is read before, when the configuration is built. -/
def config : CommandLineFunction := fun config _ => .ok config
def mobile_connection : CommandLineFunction := overwrite "mobileHost"
def mobile_connection_port : CommandLineFunction := overwrite "mobilePort"
def hmi_connection : CommandLineFunction := overwrite "hmiUrl"
def hmi_connection_port : CommandLineFunction := overwrite "hmiPort"
def perflog_connection : CommandLineFunction := overwrite "perflogConnection"
def perflog_connection_port : CommandLineFunction := overwrite "perflogConnectionPort"
def report_path : CommandLineFunction := overwrite "reportPath"
def report_mark : CommandLineFunction := overwrite "reportMark"
def storeFullSDLLogs : CommandLineFunction := overwrite "storeFullSDLLogs"
def heartbeat : CommandLineFunction := overwrite "heartbeatTimeout"
def sdl_core : CommandLineFunction := overwrite "pathToSDL"
def sdl_mobile_api : CommandLineFunction := overwrite "pathToSDLMobileInterface"
def sdl_hmi_api : CommandLineFunction := overwrite "pathToSDLHMIInterface"
def security_protocol : CommandLineFunction := overwrite "SecurityProtocol"

/-- A path that is not given is put together from the path to the sources and its default. -/
def fillPath (field default : String) (config : Config) : Except Stop Config :=
  if isGiven config field then .ok config
  else (concat (config "pathToSDLSource") (config default)).map fun path => config.set field path

def sdl_src : CommandLineFunction := fun config str => do
  let config := config.set "pathToSDLSource" str
  if isGiven config "pathToSDLSource" then
    let config ← fillPath "pathToSDLMobileInterface" "defaultPathToMobileInterface" config
    fillPath "pathToSDLHMIInterface" "defaultPathToHMIInterface" config
  else .ok config

/-- `Util.commandLine[argument]` -/
def functions : List (String × CommandLineFunction) := [("config", config), ("mobile_connection", mobile_connection),
  ("mobile_connection_port", mobile_connection_port), ("hmi_connection", hmi_connection),
  ("hmi_connection_port", hmi_connection_port), ("perflog_connection", perflog_connection),
  ("perflog_connection_port", perflog_connection_port), ("report_path", report_path), ("report_mark", report_mark),
  ("storeFullSDLLogs", storeFullSDLLogs), ("heartbeat", heartbeat), ("sdl_core", sdl_core), ("sdl_src", sdl_src),
  ("sdl_mobile_api", sdl_mobile_api), ("sdl_hmi_api", sdl_hmi_api), ("security_protocol", security_protocol)]

/-- `(argument):gsub("%W", "_")` -/
def functionName (argument : Text) : String := String.ofList (argument.map fun c => if matchClass 'W' c then '_' else c)

/-- One round of the loop over the arguments. -/
def apply (run : Config × List OptValue) : ArgKey × OptValue → Except Stop (Config × List OptValue)
  | (.name argument, value) =>
    match functions.lookup (functionName argument) with
    | some f => (f run.1 (setting value)).map (·, run.2)
    | none => .error .error
  | (.index n, value) =>
    .ok (if 2 ≤ n ∧ value ≠ .one (.text "modules/launch.lua".toList) then (run.1, run.2 ++ [value]) else run)

/-- `config_loader` builds the configuration of an environment. -/
def parse_cmdl (optparser : OptionParser Callback) (member : Text → Bool)
    (config_loader : Option OptValue → Except Stop Config) (order : Pairs ArgKey OptValue) (argv : List Text) :
    Except Stop (ArgState × Config × List OptValue) := do
  let (s, arguments) ← getopt optparser member argv
  match arguments with
  | none => do
    let config ← config_loader none
    .ok (s, config, [])
  | some arguments => do
    let config ← config_loader (arguments.get (.name "config".toList))
    let (config, scriptFiles) ← (order.visit (arguments.erase (.name "config".toList))).foldlM apply (config, [])
    .ok (s, config, scriptFiles)

end commandLine

/-- The options are declared and the arguments read; the scripts are what is executed next. -/
def launch (member : Text → Bool) (config_loader : Option OptValue → Except Stop Config)
    (order : Pairs ArgKey OptValue) (argv : List Text) : Except Stop (ArgState × Config × List OptValue) := do
  let optparser ← declareOptions
  commandLine.parse_cmdl optparser member config_loader order argv

/-! ### The options that are registered -/

def registered : OptionParser Callback := (declareOptions.bind helpOptions).toOption.getD ⟨[]⟩

theorem registered_eq : declareOptions.bind helpOptions = .ok registered := by
  have hsome : (declareOptions.bind helpOptions).toOption.isSome := by decide +kernel
  unfold registered
  cases h : declareOptions.bind helpOptions with
  | ok p => rfl
  | error e =>
    rw [h] at hsome
    cases hsome

/-- What an option does with its argument. -/
theorem registered_values : ∀ r ∈ registered.options,
    (r.2.handler = .required → r.2.value = some .checkReqOpt) ∧
    (r.2.handler = .optional → r.2.value = some .PrintUsage ∨ r.2.value = some .PrintVersion) ∧
    (r.2.handler = .flag ↔ r.2.key = "storeFullSDLLogs".toList) ∧ (r.2.handler = .flag → r.2.value = none) ∧
    normaliseOpt registered r.1 = [r.1] := by
  decide +kernel

variable {member : Text → Bool} {ws : List Written} {w : Written} {name script : Text} {o : Opt Callback}

theorem mem_options (h : registered.opt name = some o) : (name, o) ∈ registered.options := by
  obtain ⟨l₁, l₂, hsplit, -⟩ := List.lookup_eq_some_iff.mp h
  rw [hsplit]
  exact List.mem_append_right _ (List.mem_cons_self ..)

/-- `getopt` of what `launch.lua` declares. -/
theorem getopt_launch (argv : List Text) : (declareOptions.bind fun p => getopt p member argv) =
    (parse registered member call argv (if argv = [] then PrintUsage .init else .init)).bind fun parsed =>
      match parsed.unrecognised.find? (·.head? = some '-') with
      | some opt => .ok (errmsg ("undefined option: '".toList ++ opt ++ "'".toList) parsed.app, none)
      | none => .ok (parsed.app, some (insertAll (merge parsed.app.validOptList parsed.opts) parsed.unrecognised)) := by
  have hreg := registered_eq
  cases hd : declareOptions with
  | error e =>
    rw [hd] at hreg
    cases hreg
  | ok p =>
    rw [hd] at hreg
    have hhelp : helpOptions p = .ok registered := hreg
    show getopt p member argv = _
    rw [getopt, hhelp]
    rfl

/-! ### Options with an argument -/

/-- A required option in one of its spellings; only a long one is written with `=`. -/
structure Required (w : Written) : Prop where
  opt : ∃ o, registered.opt w.opt = some o ∧ o.handler = .required
  long : ∀ opt value, w = .assign opt value → ['-', '-'].IsPrefix opt ∧ '=' ∉ opt

theorem Required.spelled (h : Required w) : w.Spelled registered := by
  obtain ⟨o, ho, -⟩ := h.opt
  cases w with
  | assign opt value =>
    obtain ⟨hlong, heq⟩ := h.long opt value rfl
    exact ⟨Option.isSome_of_eq_some ho, heq, hlong⟩
  | next opt value => exact ⟨Option.isSome_of_eq_some ho, (registered_values _ (mem_options ho)).2.2.2.2⟩

theorem exists_required (h : (registered.opt name).any (·.handler = .required) = true) :
    ∃ o, registered.opt name = some o ∧ o.handler = .required := by
  cases hopt : registered.opt name with
  | none =>
    rw [hopt] at h
    cases h
  | some o =>
    rw [hopt] at h
    exact ⟨o, rfl, of_decide_eq_true h⟩

theorem required_assign
    (h : (registered.opt name).any (·.handler = .required) = true ∧ ['-', '-'].IsPrefix name ∧ '=' ∉ name)
    (value : Text) : Required (.assign name value) :=
  ⟨exists_required h.1, fun opt v heq => by
    cases heq
    exact h.2⟩

theorem required_next (h : (registered.opt name).any (·.handler = .required) = true) (value : Text) :
    Required (.next name value) :=
  ⟨exists_required h, fun opt v heq => by cases heq⟩

def keyOf (w : Written) : Text := ((registered.opt w.opt).map (·.key)).getD []

/-- What `checkReqOpt` stores. -/
def stored (l : Entries Text OptValue) (w : Written) : Entries Text OptValue := l.set (keyOf w) (.one (.text w.value))

def ArgState.store (s : ArgState) (ws : List Written) : ArgState :=
  { s with validOptList := ws.foldl stored s.validOptList }

theorem required_checked {arg : Text} {s : State ArgState} (ho : registered.opt name = some o)
    (hrequired : o.handler = .required) (hopts : s.opts = .empty) :
    required call o name arg s = { s with app := checkReqOpt o.key name arg s.app } := by
  rw [required, (registered_values _ (mem_options ho)).1 hrequired]
  simp only [State.called, call, State.set, hopts, Entries.get_empty]

/-- Values without a dash are all stored. -/
theorem parse_written (hreq : ∀ w ∈ ws, Required w) (hvalue : ∀ w ∈ ws, w.value.head? ≠ some '-') (rest : List Text)
    {s : State ArgState} (hopts : s.opts = .empty) :
    parseArgs registered member call (normalise registered (ws.flatMap Written.render ++ rest)) s =
      parseArgs registered member call (normalise registered rest) { s with app := s.app.store ws } := by
  induction ws generalizing s with
  | nil => rfl
  | cons w ws ih =>
    obtain ⟨o, ho, hrequired⟩ := (hreq w (List.mem_cons_self ..)).opt
    have hdash := hvalue w (List.mem_cons_self ..)
    obtain ⟨arg, more, hnormal, -, hkept⟩ :=
      normalise_written (hreq w (List.mem_cons_self ..)).spelled (ws.flatMap Written.render ++ rest)
    obtain ⟨rfl, rfl⟩ := hkept hdash
    have hkey : keyOf w = o.key := by rw [keyOf, ho]; rfl
    have hopts' : ({ s with app := s.app.store [w] } : State ArgState).opts = .empty := hopts
    rw [List.flatMap_cons, List.append_assoc, hnormal, List.cons_append, List.cons_append, List.nil_append,
      parseArgs_required ho hrequired, required_checked ho hrequired hopts, checkReqOpt, if_neg hdash, ← hkey]
    exact ih (fun w hw => hreq w (List.mem_cons_of_mem _ hw)) (fun w hw => hvalue w (List.mem_cons_of_mem _ hw)) hopts'

theorem call_quitCalled {f : Callback} {key : Text} {opt : Option Text} {arg : Option Arg} {s : ArgState}
    (h : s.quitCalled = true) : (call f key opt arg s).1.quitCalled = true := by
  unfold call
  split
  · unfold checkReqOpt
    split
    · rfl
    · exact h
  · exact h
  · rfl
  · rfl

theorem set_app (s : State ArgState) (key : Text) (value : Option Arg) : (s.set key value).app = s.app := by
  unfold State.set
  split <;> rfl

/-- A call of `quit` is not taken back. -/
theorem parseArgs_quitCalled {args : List Text} {s s' : State ArgState}
    (h : parseArgs registered member call args s = .ok s') (hquit : s.app.quitCalled = true) :
    s'.app.quitCalled = true := by
  refine parseArgs_invariant (I := fun s => s.app.quitCalled = true) ?_ ?_ ?_ ?_ h hquit
  · exact fun s args hs => hs
  · intro opt o arg s _ _ hs
    unfold required
    split
    · rw [State.called, set_app]
      exact call_quitCalled hs
    · rw [set_app]
      exact hs
  · intro opt o s _ _ hs
    unfold Optparse.optional
    split
    · rw [State.called, set_app]
      exact call_quitCalled hs
    · rw [set_app]
      exact hs
  · intro opt o s _ _ hs
    unfold flag
    split
    · rw [State.called, set_app]
      exact call_quitCalled hs
    · exact hs

/-- A value with a dash makes `checkReqOpt` call `quit`. -/
theorem dash_of_parsed (hreq : ∀ w ∈ ws, Required w) {s s' : State ArgState} (hopts : s.opts = .empty)
    (h : parseArgs registered member call (normalise registered (ws.flatMap Written.render)) s = .ok s')
    (hquit : s'.app.quitCalled = false) : ∀ w ∈ ws, w.value.head? ≠ some '-' := by
  induction ws generalizing s with
  | nil => exact fun w hw => absurd hw List.not_mem_nil
  | cons w ws ih =>
    obtain ⟨o, ho, hrequired⟩ := (hreq w (List.mem_cons_self ..)).opt
    obtain ⟨arg, more, hnormal, hhead, hkept⟩ :=
      normalise_written (hreq w (List.mem_cons_self ..)).spelled (ws.flatMap Written.render)
    rw [List.flatMap_cons, hnormal, List.cons_append, List.cons_append, parseArgs_required ho hrequired,
      required_checked ho hrequired hopts] at h
    have hdash : w.value.head? ≠ some '-' := by
      intro hw
      have harg : arg.head? = some '-' := hhead.trans hw
      rw [checkReqOpt, if_pos harg] at h
      exact absurd (parseArgs_quitCalled h rfl) (by simp [hquit])
    obtain ⟨rfl, rfl⟩ := hkept hdash
    intro w' hw'
    rcases List.mem_cons.mp hw' with rfl | hw'
    · exact hdash
    · have hopts' : ({ s with app := checkReqOpt o.key w.opt w.value s.app } : State ArgState).opts = .empty := hopts
      exact ih (fun w hw => hreq w (List.mem_cons_of_mem _ hw)) hopts' h w' hw'

/-! ### The arguments that are read -/

theorem get_foldl_set (t : Entries Text OptValue) (res : Arguments) (key : Text) :
    (t.toList.foldl (fun res p => res.set (.name p.1) p.2) res).get (.name key) =
      (t.get key).or (res.get (.name key)) := by
  obtain ⟨l, hnodup⟩ := t
  induction l generalizing res with
  | nil => rfl
  | cons p l ih =>
    obtain ⟨hp, hl⟩ := List.nodup_cons.mp hnodup
    rw [List.foldl_cons, ih _ hl, Entries.get_set, Entries.get_cons]
    by_cases hkey : key = p.1
    · have hnone : (Entries.mk l hl).get p.1 = none :=
        Entries.get_eq_none_iff.mpr fun v hv => hp (List.mem_map.mpr ⟨_, hv, rfl⟩)
      simp [hkey, hnone]
    · simp [hkey]

theorem get_merge (validOptList options : Entries Text OptValue) (key : Text) :
    (merge validOptList options).get (.name key) = (options.get key).or (validOptList.get key) := by
  rw [merge, List.foldl_append, get_foldl_set, get_foldl_set, Entries.get_empty, Option.or_none]

theorem get_insertAll_name (res : Arguments) (args : List Text) (key : Text) :
    (insertAll res args).get (.name key) = res.get (.name key) := by
  unfold insertAll
  generalize args.zipIdx 1 = l
  induction l generalizing res with
  | nil => rfl
  | cons p l ih =>
    rw [List.foldl_cons, ih, Entries.get_set]
    simp

/-- The value that is written last. -/
def given (ws : List Written) (key : Text) : Option Text := ((ws.filter (keyOf · = key)).getLast?).map Written.value

theorem get_stored (ws : List Written) (l : Entries Text OptValue) (key : Text) :
    (ws.foldl stored l).get key = ((given ws key).map fun t => .one (.text t)).or (l.get key) := by
  induction ws using List.reverseRecOn with
  | nil => rfl
  | append_singleton ws w ih =>
    rw [List.foldl_append, List.foldl_cons, List.foldl_nil, stored, Entries.get_set, ih, given, given,
      List.filter_append]
    by_cases hkey : key = keyOf w
    · simp [hkey]
    · have hne : ¬ keyOf w = key := fun h => hkey h.symm
      simp [hkey, hne]

theorem launch_not_registered : registered.opt "modules/launch.lua".toList = none := by decide +kernel

/-- The script that is launched and the test script are the first arguments. -/
theorem parse_launch (hmember : member "modules/launch.lua".toList = false) (hscript : plain script = true)
    (args : List Text) (s : ArgState) :
    parse registered member call ("modules/launch.lua".toList :: script :: args) s =
      parseArgs registered member call (normalise registered args)
        ⟨["modules/launch.lua".toList, script], .empty, s⟩ := by
  have hhead : script.head? ≠ some '-' := by
    intro h
    simp [plain, h] at hscript
  have hlaunch : "modules/launch.lua".toList.head? ≠ some '-' := by decide +kernel
  rw [parse, normalise_cons, normalise_cons, normaliseOpt_of_head hlaunch, normaliseOpt_of_head hhead]
  exact parseArgs_positional launch_not_registered hmember hscript

/-- The arguments that options in either spelling give, with or without the flag at the end. -/
def writtenArguments (ws : List Written) (full : Bool) (scripts : List Text) : Arguments :=
  insertAll (merge (ws.foldl stored .empty)
    (if full then Entries.empty.set "storeFullSDLLogs".toList (.one (.bool true)) else .empty)) scripts

theorem get_writtenArguments (ws : List Written) (full : Bool) (scripts : List Text) (key : Text) :
    (writtenArguments ws full scripts).get (.name key) =
      if full = true ∧ key = "storeFullSDLLogs".toList then some (.one (.bool true))
      else (given ws key).map fun t => .one (.text t) := by
  rw [writtenArguments, get_insertAll_name, get_merge, get_stored, Entries.get_empty, Option.or_none]
  cases full with
  | false => simp
  | true =>
    rw [if_pos rfl, Entries.get_set]
    by_cases hkey : key = "storeFullSDLLogs".toList
    · rw [if_pos hkey, if_pos ⟨rfl, hkey⟩]
      rfl
    · rw [if_neg hkey, if_neg fun h => hkey h.2]
      rfl

/-- What a written option is in the table of arguments. -/
def entry (w : Written) : Text × OptValue := (keyOf w, .one (.text w.value))

/-- The spelling of the flag. -/
theorem normaliseOpt_flag : normaliseOpt registered "--storeFullSDLLogs".toList = ["--storeFullSDLLogs".toList] ∧
    registered.opt "--storeFullSDLLogs".toList = some ⟨"storeFullSDLLogs".toList, .flag, none⟩ := by decide +kernel

theorem plain_not_dash {args : List Text} (h : ∀ arg ∈ args, plain arg = true) :
    args.find? (·.head? = some '-') = none := by
  rw [List.find?_eq_none]
  intro arg harg hdash
  have := h arg harg
  simp [plain, of_decide_eq_true hdash] at this

theorem getopt_written (member : Text → Bool) (hmember : member "modules/launch.lua".toList = false) (script : Text)
    (hscript : plain script = true) (hreq : ∀ w ∈ ws, Required w)
    (hvalue : ∀ w ∈ ws, w.value.head? ≠ some '-') (full : Bool) :
    (declareOptions.bind fun p => getopt p member ("modules/launch.lua".toList :: script ::
      (ws.flatMap Written.render ++ if full then ["--storeFullSDLLogs".toList] else []))) =
    .ok (ArgState.store .init ws, some (writtenArguments ws full ["modules/launch.lua".toList, script])) := by
  have hfind : ["modules/launch.lua".toList, script].find? (·.head? = some '-') = none := by
    refine plain_not_dash ?_
    simp only [List.mem_cons, List.not_mem_nil, or_false, forall_eq_or_imp, forall_eq]
    exact ⟨by decide +kernel, hscript⟩
  have hparse : parseArgs registered member call
      (normalise registered (if full then ["--storeFullSDLLogs".toList] else []))
      ⟨["modules/launch.lua".toList, script], .empty, ArgState.store .init ws⟩ =
      .ok ⟨["modules/launch.lua".toList, script],
        if full then Entries.empty.set "storeFullSDLLogs".toList (.one (.bool true)) else .empty,
        ArgState.store .init ws⟩ := by
    cases full with
    | false => rfl
    | true =>
      rw [if_pos rfl, normalise_cons, normaliseOpt_flag.1, List.singleton_append,
        parseArgs_flag normaliseOpt_flag.2 rfl]
      rfl
  rw [getopt_launch, if_neg (List.cons_ne_nil _ _), parse_launch hmember hscript, parse_written hreq hvalue _ rfl,
    hparse]
  simp only [Except.bind, hfind]
  rfl

/-- Options in either spelling are read as they were written, the last of several counting, exactly if no value
begins with a dash. -/
theorem getopt_written_iff (member : Text → Bool) (hmember : member "modules/launch.lua".toList = false)
    (script : Text) (hscript : plain script = true) (ws : List Written) (hreq : ∀ w ∈ ws, Required w) :
    (∃ s arguments, (declareOptions.bind fun p =>
        getopt p member ("modules/launch.lua".toList :: script :: ws.flatMap Written.render)) =
          .ok (s, some arguments) ∧
      s.quitCalled = false ∧ ∀ key, arguments.get (.name key) = (given ws key).map fun t => .one (.text t)) ↔
    ∀ w ∈ ws, w.value.head? ≠ some '-' := by
  constructor
  · rintro ⟨s, arguments, h, hquit, -⟩
    rw [getopt_launch, if_neg (List.cons_ne_nil _ _), parse_launch hmember hscript] at h
    cases hp : parseArgs registered member call (normalise registered (ws.flatMap Written.render))
        ⟨["modules/launch.lua".toList, script], .empty, .init⟩ with
    | error e =>
      rw [hp] at h
      cases h
    | ok parsed =>
      rw [hp] at h
      refine dash_of_parsed hreq rfl hp ?_
      simp only [Except.bind] at h
      split at h
      · cases h
      · cases h
        exact hquit
  · intro hvalue
    have h := getopt_written member hmember script hscript hreq hvalue false
    simp only [Bool.false_eq_true, if_false, List.append_nil] at h
    refine ⟨_, _, h, rfl, fun key => ?_⟩
    rw [get_writtenArguments]
    simp

/-- Two spellings, and an option that is given twice. -/
def Sample.written : List Written := [.assign "--sdl-core".toList "/b".toList, .next "-c".toList "remote".toList,
  .assign "--sdl-core".toList "/c".toList]

theorem Sample.required : ∀ w ∈ Sample.written, Required w := by
  have hcore (v : Text) : Required (.assign "--sdl-core".toList v) := required_assign (by decide +kernel) v
  have hconfig (v : Text) : Required (.next "-c".toList v) := required_next (by decide +kernel) v
  simp only [Sample.written, List.mem_cons, List.not_mem_nil, or_false, forall_eq_or_imp, forall_eq]
  exact ⟨hcore _, hconfig _, hcore _⟩

theorem getopt_written_iff_sample :
    ∃ s arguments, (declareOptions.bind fun p => getopt p (fun _ => false)
        ("modules/launch.lua".toList :: "t.lua".toList :: Sample.written.flatMap Written.render)) =
          .ok (s, some arguments) ∧
      s.quitCalled = false ∧ arguments.get (.name "sdl-core".toList) = some (.one (.text "/c".toList)) := by
  obtain ⟨s, arguments, h, hquit, hget⟩ := (getopt_written_iff (fun _ => false) rfl "t.lua".toList (by decide +kernel)
    Sample.written Sample.required).mpr (by decide +kernel)
  refine ⟨s, arguments, h, hquit, ?_⟩
  rw [hget]
  decide +kernel

end LaunchOptions
end Atf
