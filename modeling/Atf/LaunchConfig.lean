import Atf.LaunchOptions

/-!
# The configuration a command line leaves

Each argument overwrites one field of the configuration; `sdl_src` also fills the paths to the interfaces that
are not given. So the order in which the arguments are visited matters in one case: a path to an interface is
given as an empty text next to a path to the sources.
-/

namespace Atf
open Lua Optparse

namespace LaunchOptions
open commandLine

/-- What an argument does to the configuration. -/
inductive Effect
  | overwrites (field : String) (value : Setting)
  | source (path : Text)
deriving DecidableEq, Repr

/-- The options that overwrite one field: key, function and field. -/
def fields : List (Text × String × String) := [("mobile-connection".toList, "mobile_connection", "mobileHost"),
  ("mobile-connection-port".toList, "mobile_connection_port", "mobilePort"),
  ("hmi-connection".toList, "hmi_connection", "hmiUrl"),
  ("hmi-connection-port".toList, "hmi_connection_port", "hmiPort"),
  ("perflog-connection".toList, "perflog_connection", "perflogConnection"),
  ("perflog-connection-port".toList, "perflog_connection_port", "perflogConnectionPort"),
  ("report-path".toList, "report_path", "reportPath"), ("report-mark".toList, "report_mark", "reportMark"),
  ("storeFullSDLLogs".toList, "storeFullSDLLogs", "storeFullSDLLogs"),
  ("heartbeat".toList, "heartbeat", "heartbeatTimeout"),
  ("sdl-core".toList, "sdl_core", "pathToSDL"), ("security-protocol".toList, "security_protocol", "SecurityProtocol"),
  ("sdl-mobile-api".toList, "sdl_mobile_api", "pathToSDLMobileInterface"),
  ("sdl-hmi-api".toList, "sdl_hmi_api", "pathToSDLHMIInterface")]

def fieldOf (key : Text) : Option String := (fields.lookup key).map Prod.snd

def effect : ArgKey × OptValue → Option Effect
  | (.name key, .one (.text t)) =>
    if key = "sdl-src".toList then some (.source t) else (fieldOf key).map (.overwrites · (.text t))
  | (.name key, v) => (fieldOf key).map (.overwrites · (setting v))
  | (.index _, _) => none

/-- The script that an argument is. -/
def scriptFile : ArgKey × OptValue → Option OptValue
  | (.index n, value) => if 2 ≤ n ∧ value ≠ .one (.text "modules/launch.lua".toList) then some value else none
  | (.name _, _) => none

/-- A path that is not given is put together from the path to the sources and its default. -/
def fill (field : String) (path : Text) (config : Config) : Config :=
  if isGiven config field then config else config.set field (.text path)

def Effect.run (mobile hmi : Text) (config : Config) : Effect → Config
  | .overwrites field value => config.set field value
  | .source path =>
    let config := config.set "pathToSDLSource" (.text path)
    if path = [] then config
    else fill "pathToSDLHMIInterface" (path ++ hmi) (fill "pathToSDLMobileInterface" (path ++ mobile) config)

/-- The default paths of a configuration. -/
structure Defaults (config : Config) (mobile hmi : Text) : Prop where
  mobile : config "defaultPathToMobileInterface" = some (.text mobile)
  hmi : config "defaultPathToHMIInterface" = some (.text hmi)

/-- A named argument has an effect. -/
def Known (p : ArgKey × OptValue) : Prop := ∀ key, p.1 = .name key → (effect p).isSome

/-! ### One argument -/

section Round
variable {config : Config} {mobile hmi : Text} {p : ArgKey × OptValue}

theorem lookup_fields : ∀ r ∈ fields, functionName r.1 = r.2.1 ∧ r.2.2 ≠ "defaultPathToMobileInterface" ∧
    r.2.2 ≠ "defaultPathToHMIInterface" ∧ r.2.2 ≠ "pathToSDLSource" ∧ r.1 ≠ "sdl-src".toList := by
  decide +kernel

theorem functions_fields : ∀ r ∈ fields, functions.lookup r.2.1 = some (overwrite r.2.2) := by
  simp only [fields, List.forall_mem_cons]
  exact ⟨rfl, rfl, rfl, rfl, rfl, rfl, rfl, rfl, rfl, rfl, rfl, rfl, rfl, rfl, fun r hr => absurd hr List.not_mem_nil⟩

theorem mem_fields {key : Text} {field : String} (h : fieldOf key = some field) :
    ∃ name, (key, name, field) ∈ fields := by
  obtain ⟨⟨name, field'⟩, hr, rfl⟩ := Option.map_eq_some_iff.mp h
  obtain ⟨l₁, l₂, hsplit, -⟩ := List.lookup_eq_some_iff.mp hr
  exact ⟨name, hsplit ▸ List.mem_append_right _ (List.mem_cons_self ..)⟩

theorem effect_source {path : Text} (h : effect p = some (.source path)) :
    p = (.name "sdl-src".toList, .one (.text path)) := by
  unfold effect at h
  split at h
  · split at h
    · rename_i hkey
      cases h
      rw [hkey]
    · obtain ⟨field, -, hfield⟩ := Option.map_eq_some_iff.mp h
      cases hfield
  · obtain ⟨field, -, hfield⟩ := Option.map_eq_some_iff.mp h
    cases hfield
  · cases h

theorem effect_overwrites {field : String} {value : Setting} (h : effect p = some (.overwrites field value)) :
    ∃ key, p.1 = .name key ∧ value = setting p.2 ∧ ∃ name, (key, name, field) ∈ fields := by
  unfold effect at h
  split at h
  · split at h
    · cases h
    · obtain ⟨field, hfield, heq⟩ := Option.map_eq_some_iff.mp h
      cases heq
      exact ⟨_, rfl, rfl, mem_fields hfield⟩
  · obtain ⟨field, hfield, heq⟩ := Option.map_eq_some_iff.mp h
    cases heq
    exact ⟨_, rfl, rfl, mem_fields hfield⟩
  · cases h

theorem Defaults.set {field : String} {value : Setting} (h : Defaults config mobile hmi)
    (hmobile : field ≠ "defaultPathToMobileInterface") (hhmi : field ≠ "defaultPathToHMIInterface") :
    Defaults (config.set field value) mobile hmi := by
  constructor
  · rw [Table.set_of_ne _ _ hmobile.symm]
    exact h.mobile
  · rw [Table.set_of_ne _ _ hhmi.symm]
    exact h.hmi

theorem Defaults.fill {field : String} {path : Text} (h : Defaults config mobile hmi)
    (hmobile : field ≠ "defaultPathToMobileInterface") (hhmi : field ≠ "defaultPathToHMIInterface") :
    Defaults (LaunchOptions.fill field path config) mobile hmi := by
  unfold LaunchOptions.fill
  split
  · exact h
  · exact h.set hmobile hhmi

theorem fillPath_eq {field default : String} {source path : Text}
    (hsource : config "pathToSDLSource" = some (.text source))
    (hdefault : config default = some (.text path)) :
    fillPath field default config = .ok (fill field (source ++ path) config) := by
  unfold fillPath fill
  split
  · rfl
  · rw [hsource, hdefault]
    rfl

theorem sdl_src_eq (h : Defaults config mobile hmi) (path : Text) :
    sdl_src config (.text path) = .ok (Effect.run mobile hmi config (.source path)) := by
  have hsource : (config.set "pathToSDLSource" (.text path)) "pathToSDLSource" = some (.text path) := Table.set_self ..
  have hdefaults : Defaults (config.set "pathToSDLSource" (.text path)) mobile hmi := h.set (by decide) (by decide)
  unfold sdl_src Effect.run
  by_cases hpath : path = []
  · subst hpath
    simp [isGiven]
  · have hgiven : isGiven (config.set "pathToSDLSource" (.text path)) "pathToSDLSource" = true := by
      simp [isGiven, hpath]
    have hkept : (LaunchOptions.fill "pathToSDLMobileInterface" (path ++ mobile)
        (config.set "pathToSDLSource" (.text path))) "pathToSDLSource" = some (.text path) := by
      unfold LaunchOptions.fill
      split
      · exact hsource
      · rw [Table.set_of_ne _ _ (by decide)]
        exact hsource
    simp only [hgiven, if_pos, if_neg hpath]
    rw [fillPath_eq hsource hdefaults.mobile]
    exact fillPath_eq hkept (hdefaults.fill (by decide) (by decide)).hmi

theorem Effect.run_defaults {e : Effect} (h : Defaults config mobile hmi) (he : effect p = some e) :
    Defaults (e.run mobile hmi config) mobile hmi := by
  cases e with
  | overwrites field value =>
    obtain ⟨key, -, -, name, hmem⟩ := effect_overwrites he
    obtain ⟨-, hmobile, hhmi, -⟩ := lookup_fields _ hmem
    exact h.set hmobile hhmi
  | source path =>
    have hset : Defaults (config.set "pathToSDLSource" (.text path)) mobile hmi := h.set (by decide) (by decide)
    unfold Effect.run
    dsimp only
    split
    · exact hset
    · exact (hset.fill (by decide) (by decide)).fill (by decide) (by decide)

/-- A round of the loop runs the effect of its argument and keeps its script. -/
theorem apply_eq (scripts : List OptValue) (h : Defaults config mobile hmi) (hknown : Known p) :
    apply (config, scripts) p =
      .ok ((effect p).elim config (Effect.run mobile hmi config), scripts ++ (scriptFile p).toList) := by
  obtain ⟨key, value⟩ := p
  cases key with
  | index n =>
    rw [apply, scriptFile]
    split
    · rfl
    · exact congrArg (fun l => Except.ok (config, l)) (List.append_nil scripts).symm
  | name key =>
    obtain ⟨e, he⟩ := Option.isSome_iff_exists.mp (hknown key rfl)
    rw [he, Option.elim_some, scriptFile, Option.toList_none, List.append_nil]
    cases e with
    | overwrites field value' =>
      obtain ⟨key', hkey, rfl, name, hmem⟩ := effect_overwrites he
      cases hkey
      rw [apply, (lookup_fields _ hmem).1, functions_fields _ hmem]
      rfl
    | source path =>
      cases effect_source he
      have hname : functionName "sdl-src".toList = "sdl_src" := by decide +kernel
      have hlookup : functions.lookup "sdl_src" = some sdl_src := rfl
      rw [apply, hname, hlookup]
      show (sdl_src config (.text path)).map _ = _
      rw [sdl_src_eq h]
      rfl

/-- The loop runs the effects of its arguments in turn and collects the scripts. -/
theorem foldlM_apply {l : List (ArgKey × OptValue)} (scripts : List OptValue) (h : Defaults config mobile hmi)
    (hknown : ∀ p ∈ l, Known p) : l.foldlM apply (config, scripts) =
      .ok ((l.filterMap effect).foldl (Effect.run mobile hmi) config, scripts ++ l.filterMap scriptFile) := by
  induction l generalizing config scripts with
  | nil => exact congrArg (fun l => Except.ok (config, l)) (List.append_nil scripts).symm
  | cons p l ih =>
    have hround := apply_eq scripts h (hknown p (List.mem_cons_self ..))
    have hrest := fun p hp => hknown p (List.mem_cons_of_mem _ hp)
    have hscripts : scripts ++ (p :: l).filterMap scriptFile =
        (scripts ++ (scriptFile p).toList) ++ l.filterMap scriptFile := by
      cases hp : scriptFile p with
      | none => rw [List.filterMap_cons_none hp, Option.toList_none, List.append_nil]
      | some script =>
        rw [List.filterMap_cons_some hp, Option.toList_some, List.append_assoc]
        rfl
    rw [List.foldlM_cons, hround, hscripts]
    cases he : effect p with
    | none =>
      rw [List.filterMap_cons_none he]
      exact ih _ h hrest
    | some e =>
      rw [List.filterMap_cons_some he]
      exact ih _ (Effect.run_defaults h he) hrest

end Round

/-! ### Effects in another order -/

section Orders
variable {config : Config} {mobile hmi path : Text} {field : String} {value : Setting}

theorem set_comm {field' : String} {value' : Setting} (h : field ≠ field' ∨ value = value') :
    (config.set field value).set field' value' = (config.set field' value').set field value := by
  by_cases hfield : field = field'
  · subst hfield
    rcases h with h | rfl
    · exact absurd rfl h
    · rfl
  · exact Function.update_comm hfield ..

/-- Filling in a path and overwriting commute, but for an empty text in the place of that path. -/
theorem fill_set {field' : String} (h : field = field' → value ≠ .text []) :
    fill field' path (config.set field value) = (fill field' path config).set field value := by
  unfold fill
  by_cases hfield : field = field'
  · subst hfield
    have hgiven : isGiven (config.set field value) field = true := by simp [isGiven, h rfl]
    rw [if_pos hgiven]
    split
    · rfl
    · rw [Table.set_set]
  · have hsame : isGiven (config.set field value) field' = isGiven config field' := by
      rw [isGiven, Table.set_of_ne _ _ (Ne.symm hfield), isGiven]
    rw [hsame]
    split
    · rfl
    · exact set_comm (.inl hfield)

theorem run_source_nil : Effect.run mobile hmi config (.source []) = config.set "pathToSDLSource" (.text []) := rfl

theorem run_source_ne (h : path ≠ []) : Effect.run mobile hmi config (.source path) =
    fill "pathToSDLHMIInterface" (path ++ hmi)
      (fill "pathToSDLMobileInterface" (path ++ mobile) (config.set "pathToSDLSource" (.text path))) := if_neg h

theorem source_overwrites (hsource : field ≠ "pathToSDLSource")
    (hempty : path ≠ [] → field = "pathToSDLMobileInterface" ∨ field = "pathToSDLHMIInterface" → value ≠ .text []) :
    Effect.run mobile hmi (config.set field value) (.source path) =
      (Effect.run mobile hmi config (.source path)).set field value := by
  by_cases hpath : path = []
  · subst hpath
    exact set_comm (.inl hsource)
  · rw [run_source_ne hpath, run_source_ne hpath, set_comm (.inl hsource), fill_set fun h => hempty hpath (.inl h),
      fill_set fun h => hempty hpath (.inr h)]

/-- The effects of arguments none of which is an empty path next to a path to the sources. -/
structure Compatible (effects : List Effect) : Prop where
  value : ∀ field v v', .overwrites field v ∈ effects → .overwrites field v' ∈ effects → v = v'
  path : ∀ path path', .source path ∈ effects → .source path' ∈ effects → path = path'
  source : ∀ v, .overwrites "pathToSDLSource" v ∉ effects
  filled : ∀ path field, .source path ∈ effects → path ≠ [] →
    field = "pathToSDLMobileInterface" ∨ field = "pathToSDLHMIInterface" → .overwrites field (.text []) ∉ effects

theorem Compatible.foldl_perm {effects effects' : List Effect} (h : Compatible effects)
    (hperm : effects.Perm effects') :
    effects.foldl (Effect.run mobile hmi) config = effects'.foldl (Effect.run mobile hmi) config := by
  refine hperm.foldl_eq' (fun e he e' he' config => ?_) config
  cases e with
  | overwrites field v =>
    cases e' with
    | overwrites field' v' =>
      refine set_comm ?_
      by_cases hfield : field = field'
      · subst hfield
        exact .inr (h.value field v v' he he')
      · exact .inl hfield
    | source path =>
      refine source_overwrites (fun hf => h.source v (hf ▸ he)) fun hpath hf hv => ?_
      exact h.filled path field he' hpath hf (hv ▸ he)
  | source path =>
    cases e' with
    | overwrites field v =>
      refine (source_overwrites (fun hf => h.source v (hf ▸ he')) fun hpath hf hv => ?_).symm
      exact h.filled path field he hpath hf (hv ▸ he')
    | source path' => rw [h.path path path' he he']

/-- The two paths that `sdl_src` fills: option, field and default. -/
inductive Interface (mobile hmi : Text) : Text → String → Text → Prop
  | mobile : Interface mobile hmi "sdl-mobile-api".toList "pathToSDLMobileInterface" mobile
  | hmi : Interface mobile hmi "sdl-hmi-api".toList "pathToSDLHMIInterface" hmi

variable {key default : Text} {effects : List Effect}

theorem isGiven_congr {config' : Config} (h : config field = config' field) :
    isGiven config field = isGiven config' field := by
  rw [isGiven, isGiven, h]

theorem fill_self : fill field path config field =
    if isGiven config field = true then config field else some (.text path) := by
  unfold fill
  split
  · rfl
  · exact Table.set_self ..

theorem fill_of_ne {field' : String} (h : field' ≠ field) : fill field path config field' = config field' := by
  unfold fill
  split
  · rfl
  · exact Table.set_of_ne _ _ h

/-- What the path to the sources makes of the path to an interface. -/
theorem run_source (hi : Interface mobile hmi key field default) (hpath : path ≠ []) :
    Effect.run mobile hmi config (.source path) field =
      if isGiven config field = true then config field else some (.text (path ++ default)) := by
  have hkept : ∀ field' ≠ "pathToSDLSource", (config.set "pathToSDLSource" (.text path)) field' = config field' :=
    fun field' h => Table.set_of_ne _ _ h
  rw [run_source_ne hpath]
  cases hi with
  | mobile =>
    have hmobile := hkept "pathToSDLMobileInterface" (by decide)
    rw [fill_of_ne (by decide), fill_self, isGiven_congr hmobile, hmobile]
  | hmi =>
    have hhmi : fill "pathToSDLMobileInterface" (path ++ mobile) (config.set "pathToSDLSource" (.text path))
        "pathToSDLHMIInterface" = config "pathToSDLHMIInterface" :=
      (fill_of_ne (by decide)).trans (hkept _ (by decide))
    rw [fill_self, isGiven_congr hhmi, hhmi]

theorem run_given (hi : Interface mobile hmi key field default) {e : Effect} (hgiven : isGiven config field = true)
    (he : ∀ v, e ≠ .overwrites field v) : Effect.run mobile hmi config e field = config field := by
  cases e with
  | overwrites field' v => exact Table.set_of_ne _ _ fun h => he v (h ▸ rfl)
  | source path =>
    by_cases hpath : path = []
    · subst hpath
      rw [run_source_nil, Table.set_of_ne]
      cases hi <;> decide
    · rw [run_source hi hpath, if_pos hgiven]

theorem foldl_given (hi : Interface mobile hmi key field default) (hover : ∀ v, .overwrites field v ∉ effects)
    (hgiven : isGiven config field = true) : effects.foldl (Effect.run mobile hmi) config field = config field := by
  induction effects generalizing config with
  | nil => rfl
  | cons e effects ih =>
    have hrun := run_given hi hgiven fun v he => hover v (he ▸ List.mem_cons_self (a := e) (l := effects))
    rw [List.foldl_cons, ih (fun v hv => hover v (List.mem_cons_of_mem _ hv)) ((isGiven_congr hrun).trans hgiven), hrun]

/-- A path that nothing overwrites is filled in from the path to the sources. -/
theorem foldl_filled (hi : Interface mobile hmi key field default) (hpath : path ≠ [])
    (hmem : Effect.source path ∈ effects) (honly : ∀ path', Effect.source path' ∈ effects → path' = path)
    (hover : ∀ v, .overwrites field v ∉ effects) (hgiven : isGiven config field = false) :
    effects.foldl (Effect.run mobile hmi) config field = some (.text (path ++ default)) := by
  induction effects generalizing config with
  | nil => exact absurd hmem List.not_mem_nil
  | cons e effects ih =>
    have hover' : ∀ v, .overwrites field v ∉ effects := fun v hv => hover v (List.mem_cons_of_mem _ hv)
    have honly' : ∀ path', Effect.source path' ∈ effects → path' = path :=
      fun path' h => honly path' (List.mem_cons_of_mem _ h)
    rw [List.foldl_cons]
    cases e with
    | overwrites field' v =>
      have hne : field ≠ field' := fun h => hover v (h ▸ List.mem_cons_self ..)
      have hmem' : Effect.source path ∈ effects := by simpa using hmem
      refine ih hmem' honly' hover' ((isGiven_congr ?_).trans hgiven)
      exact Table.set_of_ne _ _ hne
    | source path' =>
      -- from here on the path is there
      obtain rfl := honly path' (List.mem_cons_self ..)
      have hrun : Effect.run mobile hmi config (.source path') field = some (.text (path' ++ default)) := by
        rw [run_source hi hpath, hgiven]
        rfl
      rw [foldl_given hi hover' (by simp [isGiven, hrun, hpath]), hrun]

/-- A field that is overwritten with no path to the sources around it. -/
theorem foldl_overwritten (hmem : Effect.overwrites field value ∈ effects)
    (honly : ∀ v, Effect.overwrites field v ∈ effects → v = value) (hsource : ∀ path, .source path ∉ effects) :
    effects.foldl (Effect.run mobile hmi) config field = some value := by
  induction effects using List.reverseRecOn with
  | nil => exact absurd hmem List.not_mem_nil
  | append_singleton effects e ih =>
    rw [List.foldl_append, List.foldl_cons, List.foldl_nil]
    cases e with
    | overwrites field' v =>
      by_cases hfield : field' = field
      · subst hfield
        obtain rfl := honly v (List.mem_append_right _ (List.mem_singleton_self _))
        exact Table.set_self ..
      · have hmem' : Effect.overwrites field value ∈ effects := by
          simpa [Ne.symm hfield] using hmem
        refine (Table.set_of_ne _ _ (Ne.symm hfield)).trans (ih hmem' ?_ ?_)
        · exact fun v h => honly v (List.mem_append_left _ h)
        · exact fun path h => hsource path (List.mem_append_left _ h)
    | source path => exact absurd (List.mem_append_right _ (List.mem_singleton_self _)) (hsource path)

end Orders

/-! ### The arguments of a run -/

section Arguments
variable {config : Config} {mobile hmi path key default : Text} {field : String} {value : Setting}
  {arguments : Arguments}

def effects (arguments : Arguments) : List Effect := arguments.toList.filterMap effect

theorem mem_effects_source :
    .source path ∈ effects arguments ↔ arguments.get (.name "sdl-src".toList) = some (.one (.text path)) := by
  rw [effects, List.mem_filterMap, Entries.get_iff]
  constructor
  · rintro ⟨p, hp, he⟩
    exact effect_source he ▸ hp
  · exact fun h => ⟨_, h, rfl⟩

theorem exists_of_mem_overwrites (h : .overwrites field value ∈ effects arguments) :
    ∃ key v name, arguments.get (.name key) = some v ∧ value = setting v ∧ (key, name, field) ∈ fields := by
  obtain ⟨⟨k, v⟩, hp, he⟩ := List.mem_filterMap.mp h
  obtain ⟨key, hkey, hvalue, name, hmem⟩ := effect_overwrites he
  cases hkey
  exact ⟨key, v, name, Entries.get_iff.mpr hp, hvalue, hmem⟩

theorem key_of_field : ∀ r ∈ fields, ∀ r' ∈ fields, r.2.2 = r'.2.2 → r.1 = r'.1 := by decide +kernel

theorem Interface.mem_fields (hi : Interface mobile hmi key field default) : ∃ name, (key, name, field) ∈ fields := by
  cases hi with
  | mobile => exact ⟨"sdl_mobile_api", by decide +kernel⟩
  | hmi => exact ⟨"sdl_hmi_api", by decide +kernel⟩

/-- What overwrites a field is the value of its option. -/
theorem get_of_mem_overwrites {name : String} (hmem : (key, name, field) ∈ fields)
    (h : .overwrites field value ∈ effects arguments) :
    ∃ v, arguments.get (.name key) = some v ∧ value = setting v := by
  obtain ⟨key', v, name', hget, hvalue, hmem'⟩ := exists_of_mem_overwrites h
  cases key_of_field _ hmem' _ hmem rfl
  exact ⟨v, hget, hvalue⟩

/-- No path to an interface is given as an empty text next to a path to the sources. -/
def NoEmptyPath (arguments : Arguments) : Prop :=
  ∀ path, arguments.get (.name "sdl-src".toList) = some (.one (.text path)) → path ≠ [] →
    arguments.get (.name "sdl-mobile-api".toList) ≠ some (.one (.text [])) ∧
      arguments.get (.name "sdl-hmi-api".toList) ≠ some (.one (.text []))

theorem eq_of_setting {v : OptValue} (h : setting v = .text path) : v = .one (.text path) := by
  unfold setting at h
  split at h
  · cases h
    rfl
  · cases h
  · cases h

theorem compatible_effects (h : NoEmptyPath arguments) : Compatible (effects arguments) where
  value field v v' hv hv' := by
    obtain ⟨key, w, name, hget, rfl, hmem⟩ := exists_of_mem_overwrites hv
    obtain ⟨w', hget', rfl⟩ := get_of_mem_overwrites hmem hv'
    cases hget.symm.trans hget'
    rfl
  path path path' hp hp' := by
    cases (mem_effects_source.mp hp).symm.trans (mem_effects_source.mp hp')
    rfl
  source v hv := by
    obtain ⟨key, -, name, -, -, hmem⟩ := exists_of_mem_overwrites hv
    exact (lookup_fields _ hmem).2.2.2.1 rfl
  filled path field hp hpath hfield hv := by
    have hno := h path (mem_effects_source.mp hp) hpath
    rcases hfield with rfl | rfl
    · obtain ⟨name, hmem⟩ := (Interface.mobile : Interface [] [] _ _ _).mem_fields
      obtain ⟨v, hget, hvalue⟩ := get_of_mem_overwrites hmem hv
      exact hno.1 (eq_of_setting hvalue.symm ▸ hget)
    · obtain ⟨name, hmem⟩ := (Interface.hmi : Interface [] [] _ _ _).mem_fields
      obtain ⟨v, hget, hvalue⟩ := get_of_mem_overwrites hmem hv
      exact hno.2 (eq_of_setting hvalue.symm ▸ hget)

/-- The configuration that the loop leaves in an order of `pairs`. -/
def configured (order : Pairs ArgKey OptValue) (config : Config) (arguments : Arguments) : Except Stop Config :=
  ((order.visit arguments).foldlM apply (config, [])).map Prod.fst

theorem configured_eq (h : Defaults config mobile hmi) (hknown : ∀ p ∈ arguments.toList, Known p)
    (order : Pairs ArgKey OptValue) : configured order config arguments =
      .ok (((order.visit arguments).filterMap effect).foldl (Effect.run mobile hmi) config) := by
  rw [configured, foldlM_apply [] h fun p hp => hknown p (order.mem_visit.mp hp)]
  rfl

/-- Any order has the effects of the order in which the arguments are listed. -/
theorem foldl_visit (hno : NoEmptyPath arguments) (order : Pairs ArgKey OptValue) :
    ((order.visit arguments).filterMap effect).foldl (Effect.run mobile hmi) config =
      (effects arguments).foldl (Effect.run mobile hmi) config :=
  ((compatible_effects hno).foldl_perm ((order.perm arguments).filterMap effect).symm).symm

theorem mem_effects_erase {p : ArgKey × OptValue} {e : Effect} :
    e ∈ (arguments.toList.erase p).filterMap effect ↔ ∃ q ∈ arguments.toList, q ≠ p ∧ effect q = some e := by
  have hnodup : arguments.toList.Nodup := arguments.nodup.of_map
  simp only [List.mem_filterMap, hnodup.mem_erase_iff]
  exact ⟨fun ⟨q, hq, he⟩ => ⟨q, hq.2, hq.1, he⟩, fun ⟨q, hq, hne, he⟩ => ⟨q, ⟨hne, hq⟩, he⟩⟩

theorem effect_empty (hi : Interface mobile hmi key field default) :
    effect (.name key, .one (.text [])) = some (.overwrites field (.text [])) := by
  cases hi <;> decide +kernel

/-- An option that is given as an empty text is what overwrites its field. -/
theorem eq_empty_of_overwrites (hi : Interface mobile hmi key field default)
    (hempty : arguments.get (.name key) = some (.one (.text []))) {q : ArgKey × OptValue} (hq : q ∈ arguments.toList)
    (he : effect q = some (.overwrites field value)) : q = (.name key, .one (.text [])) := by
  obtain ⟨name, hmem⟩ := hi.mem_fields
  obtain ⟨key', hkey, -, name', hmem'⟩ := effect_overwrites he
  cases key_of_field _ hmem' _ hmem rfl
  obtain ⟨k, v⟩ := q
  cases hkey
  cases hempty.symm.trans (Entries.get_iff.mpr hq)
  rfl

/-- The sources first: the empty text comes later and stays. -/
theorem sources_first (hi : Interface mobile hmi key field default) (h : Defaults config mobile hmi)
    (hknown : ∀ p ∈ arguments.toList, Known p)
    (hsource : arguments.get (.name "sdl-src".toList) = some (.one (.text path)))
    (hempty : arguments.get (.name key) = some (.one (.text []))) :
    ∃ config', configured (.first (.name "sdl-src".toList, .one (.text path))) config arguments = .ok config' ∧
      config' field = some (.text []) := by
  have hsrc := Entries.get_iff.mp hsource
  have hne : (ArgKey.name key, OptValue.one (.text [])) ≠ (.name "sdl-src".toList, .one (.text path)) := by
    have hkey : key ≠ "sdl-src".toList := by cases hi <;> decide +kernel
    exact fun heq => hkey (by cases heq; rfl)
  refine ⟨_, configured_eq h hknown _, ?_⟩
  rw [Pairs.visit_first hsrc, List.filterMap_cons_some (show effect _ = some (.source path) from rfl), List.foldl_cons]
  refine foldl_overwritten (mem_effects_erase.mpr ⟨_, Entries.get_iff.mp hempty, hne, effect_empty hi⟩) ?_ ?_
  · intro v hv
    obtain ⟨q, hq, -, he⟩ := mem_effects_erase.mp hv
    rw [eq_empty_of_overwrites hi hempty hq he, effect_empty hi] at he
    cases he
    rfl
  · intro path' hp
    obtain ⟨q, hq, hqne, he⟩ := mem_effects_erase.mp hp
    cases effect_source he
    cases hsource.symm.trans (Entries.get_iff.mpr hq)
    exact hqne rfl

/-- The interface first: the path counts as not given and is filled in later. -/
theorem interface_first (hi : Interface mobile hmi key field default) (h : Defaults config mobile hmi)
    (hknown : ∀ p ∈ arguments.toList, Known p) (hpath : path ≠ [])
    (hsource : arguments.get (.name "sdl-src".toList) = some (.one (.text path)))
    (hempty : arguments.get (.name key) = some (.one (.text []))) :
    ∃ config', configured (.first (.name key, .one (.text []))) config arguments = .ok config' ∧
      config' field = some (.text (path ++ default)) := by
  have hapi := Entries.get_iff.mp hempty
  have hne : (ArgKey.name "sdl-src".toList, OptValue.one (.text path)) ≠ (.name key, .one (.text [])) :=
    fun heq => hpath (by cases heq; rfl)
  refine ⟨_, configured_eq h hknown _, ?_⟩
  rw [Pairs.visit_first hapi, List.filterMap_cons_some (effect_empty hi), List.foldl_cons]
  refine foldl_filled hi hpath (mem_effects_erase.mpr ⟨_, Entries.get_iff.mp hsource, hne, rfl⟩) ?_ ?_ ?_
  · intro path' hp
    obtain ⟨q, hq, -, he⟩ := mem_effects_erase.mp hp
    cases effect_source he
    cases hsource.symm.trans (Entries.get_iff.mpr hq)
    rfl
  · intro v hv
    obtain ⟨q, hq, hqne, he⟩ := mem_effects_erase.mp hv
    exact hqne (eq_empty_of_overwrites hi hempty hq he)
  · simp [isGiven, Effect.run]

/-- An empty path to an interface next to a path to the sources: what is visited first decides. -/
theorem differ_of_empty (hi : Interface mobile hmi key field default) (h : Defaults config mobile hmi)
    (hknown : ∀ p ∈ arguments.toList, Known p) (hpath : path ≠ [])
    (hsource : arguments.get (.name "sdl-src".toList) = some (.one (.text path)))
    (hempty : arguments.get (.name key) = some (.one (.text []))) :
    configured (.first (.name "sdl-src".toList, .one (.text path))) config arguments ≠
      configured (.first (.name key, .one (.text []))) config arguments := by
  obtain ⟨config₁, heq₁, hfield₁⟩ := sources_first hi h hknown hsource hempty
  obtain ⟨config₂, heq₂, hfield₂⟩ := interface_first hi h hknown hpath hsource hempty
  intro heq
  obtain rfl := Except.ok.inj (heq₁.symm.trans (heq.trans heq₂))
  have hboth := hfield₁.symm.trans hfield₂
  simp [hpath] at hboth

/-- The configuration does not depend on the order in which `pairs` visits the arguments exactly if no path to an
interface is given as an empty text next to a path to the sources. -/
theorem configured_same_for_all_orders_iff (h : Defaults config mobile hmi) (hknown : ∀ p ∈ arguments.toList, Known p) :
    (∀ order order', configured order config arguments = configured order' config arguments) ↔
      NoEmptyPath arguments := by
  constructor
  · intro hsame path hsource hpath
    exact ⟨fun hempty => differ_of_empty .mobile h hknown hpath hsource hempty (hsame _ _),
      fun hempty => differ_of_empty .hmi h hknown hpath hsource hempty (hsame _ _)⟩
  · intro hno order order'
    rw [configured_eq h hknown, configured_eq h hknown, foldl_visit hno, foldl_visit hno]

end Arguments

/-! ### What the arguments can hold -/

section Entered
variable {member : Text → Bool} {argv : List Text} {s : ArgState} {arguments : Arguments}

/-- Required options have a text and the flag is set. -/
structure Entered (s : State ArgState) : Prop where
  required : ∀ key v, s.app.validOptList.get key = some v →
    (∃ t, v = .one (.text t)) ∧ ∃ r ∈ registered.options, r.2.handler = .required ∧ r.2.key = key
  flags : ∀ key v, s.opts.get key = some v → key = "storeFullSDLLogs".toList ∧ v = .one (.bool true)

theorem call_validOptList (f : Callback) (key : Text) (opt : Option Text) (arg : Option Arg) (s : ArgState) :
    ((call f key opt arg s).1.validOptList = s.validOptList ∨
      f = .checkReqOpt ∧ ∃ t, (call f key opt arg s).1.validOptList = s.validOptList.set key (.one (.text t))) ∧
    (call f key opt arg s).2 = none := by
  unfold call
  split
  · refine ⟨?_, rfl⟩
    unfold checkReqOpt
    split
    · exact .inl rfl
    · exact .inr ⟨rfl, _, rfl⟩
  · exact ⟨.inl rfl, rfl⟩
  · exact ⟨.inl rfl, rfl⟩
  · exact ⟨.inl rfl, rfl⟩

theorem Entered.called {s : State ArgState} {name : Text} {o : Opt Callback} {f : Callback} (h : Entered s)
    (ho : registered.opt name = some o) (hhandler : o.handler = .required ∨ o.handler = .optional)
    (hf : o.value = some f) (opt : Option Text) (arg : Option Arg) : Entered (s.called call o f opt arg) := by
  have hmem := mem_options ho
  obtain ⟨-, hoptional, hflag, -⟩ := registered_values _ hmem
  have hkey : s.opts.get o.key = none := by
    cases hget : s.opts.get o.key with
    | none => rfl
    | some v =>
      have := hflag.mpr (h.flags _ _ hget).1
      rcases hhandler with hh | hh <;> rw [hh] at this <;> cases this
  obtain ⟨hlist, hnone⟩ := call_validOptList f o.key opt arg s.app
  have hcalled : s.called call o f opt arg = { s with app := (call f o.key opt arg s.app).1 } := by
    simp only [State.called, hnone, State.set, hkey]
  rw [hcalled]
  refine ⟨fun key v hget => ?_, h.flags⟩
  rcases hlist with hlist | ⟨rfl, t, hlist⟩
  · exact h.required key v (hlist ▸ hget)
  · have hrequired : o.handler = .required := by
      rcases hhandler with hh | hh
      · exact hh
      · rcases hoptional hh with hv | hv <;> rw [hv] at hf <;> cases hf
    dsimp only at hget
    rw [hlist, Entries.get_set] at hget
    split at hget
    · rename_i hk
      cases hget
      exact ⟨⟨t, rfl⟩, _, hmem, hrequired, hk.symm⟩
    · exact h.required key v hget

theorem value_isSome {name : Text} {o : Opt Callback} (ho : registered.opt name = some o)
    (hhandler : o.handler = .required ∨ o.handler = .optional) : ∃ f, o.value = some f := by
  obtain ⟨hrequired, hoptional, -⟩ := registered_values _ (mem_options ho)
  rcases hhandler with hh | hh
  · exact ⟨_, hrequired hh⟩
  · rcases hoptional hh with hv | hv <;> exact ⟨_, hv⟩

theorem parsed_entered {args : List Text} {s s' : State ArgState}
    (h : parseArgs registered member call args s = .ok s') (hstart : Entered s) : Entered s' := by
  refine parseArgs_invariant (I := Entered) ?_ ?_ ?_ ?_ h hstart
  · exact fun s args hs => ⟨hs.required, hs.flags⟩
  · intro opt o arg s ho hhandler hs
    obtain ⟨f, hf⟩ := value_isSome ho hhandler
    rw [required, hf]
    exact hs.called ho hhandler hf _ _
  · intro opt o s ho hhandler hs
    obtain ⟨f, hf⟩ := value_isSome ho (.inr hhandler)
    rw [Optparse.optional, hf]
    exact hs.called ho (.inr hhandler) hf _ _
  · intro opt o s ho hhandler hs
    obtain ⟨-, -, hflag, hvalue, -⟩ := registered_values _ (mem_options ho)
    rw [flag, hvalue hhandler]
    refine ⟨hs.required, fun key v hget => ?_⟩
    dsimp only at hget
    rw [Entries.get_set] at hget
    split at hget
    · rename_i hk
      cases hget
      exact ⟨hk.trans (hflag.mp hhandler), rfl⟩
    · exact hs.flags key v hget

theorem registered_fields : ∀ r ∈ registered.options, r.2.handler = .required →
    r.2.key = "config".toList ∨ r.2.key = "sdl-src".toList ∨ (fieldOf r.2.key).isSome := by
  decide +kernel

/-- Every named argument but the configuration overwrites something. -/
theorem known_of_getopt (h : (declareOptions.bind fun p => getopt p member argv) = .ok (s, some arguments)) :
    ∀ p ∈ (arguments.erase (.name "config".toList)).toList, Known p := by
  rw [getopt_launch] at h
  cases hp : parse registered member call argv (if argv = [] then PrintUsage .init else .init) with
  | error e =>
    rw [hp] at h
    cases h
  | ok parsed =>
    have hentered : Entered parsed := by
      refine parsed_entered hp ⟨?_, fun _ _ h => (nomatch h)⟩
      intro key v hget
      split at hget <;> cases hget
    rw [hp] at h
    simp only [Except.bind] at h
    split at h
    · cases h
    · cases h
      rintro ⟨k, v⟩ hmem key rfl
      rw [← Entries.get_iff, Entries.get_erase] at hmem
      split at hmem
      · cases hmem
      · rename_i hconfig
        rw [get_insertAll_name, get_merge, Option.or_eq_some_iff] at hmem
        rcases hmem with hflag | ⟨-, hmem⟩
        · obtain ⟨rfl, rfl⟩ := hentered.flags _ _ hflag
          decide +kernel
        · obtain ⟨⟨t, rfl⟩, r, hr, hrequired, rfl⟩ := hentered.required _ _ hmem
          rcases registered_fields r hr hrequired with hk | hk | hk
          · exact absurd (congrArg ArgKey.name hk) hconfig
          · simp [effect, hk]
          · unfold effect
            dsimp only
            split
            · rfl
            · simpa using hk

/-- `launch` once its arguments are read and the configuration is built. -/
theorem launch_eq {config_loader : Option OptValue → Except Stop Config} {config : Config}
    (hargs : (declareOptions.bind fun p => getopt p member argv) = .ok (s, some arguments))
    (hload : config_loader (arguments.get (.name "config".toList)) = .ok config) (order : Pairs ArgKey OptValue) :
    launch member config_loader order argv =
      ((order.visit (arguments.erase (.name "config".toList))).foldlM apply (config, [])).map fun run =>
        (s, run.1, run.2) := by
  cases hd : declareOptions with
  | error e =>
    rw [hd] at hargs
    cases hargs
  | ok p =>
    rw [hd] at hargs
    have hgetopt : getopt p member argv = .ok (s, some arguments) := hargs
    rw [launch, hd]
    show parse_cmdl p member config_loader order argv = _
    rw [parse_cmdl, hgetopt]
    show (do
      let config ← config_loader (arguments.get (.name "config".toList))
      let r ← (order.visit (arguments.erase (.name "config".toList))).foldlM apply (config, [])
      .ok (s, r.1, r.2)) = _
    rw [hload]
    show ((order.visit (arguments.erase (.name "config".toList))).foldlM apply (config, [])).bind _ = _
    cases (order.visit (arguments.erase (.name "config".toList))).foldlM apply (config, []) <;> rfl

theorem noEmptyPath_erase : NoEmptyPath (arguments.erase (.name "config".toList)) ↔ NoEmptyPath arguments := by
  have hget (key : Text) (hkey : key ≠ "config".toList) :
      (arguments.erase (.name "config".toList)).get (.name key) = arguments.get (.name key) := by
    rw [Entries.get_erase, if_neg fun h => hkey (ArgKey.name.inj h)]
  unfold NoEmptyPath
  rw [hget _ (by decide +kernel), hget _ (by decide +kernel), hget _ (by decide +kernel)]

/-- Whatever is on the command line: the configuration does not depend on the order in which `pairs` visits the
arguments exactly if no path to an interface is given as an empty text next to a path to the sources. -/
theorem launch_same_for_all_orders_iff (config_loader : Option OptValue → Except Stop Config) {config : Config}
    {mobile hmi : Text} (hargs : (declareOptions.bind fun p => getopt p member argv) = .ok (s, some arguments))
    (hload : config_loader (arguments.get (.name "config".toList)) = .ok config) (h : Defaults config mobile hmi) :
    (∀ order order', (launch member config_loader order argv).map (·.2.1) =
      (launch member config_loader order' argv).map (·.2.1)) ↔ NoEmptyPath arguments := by
  have hconfigured (order : Pairs ArgKey OptValue) : (launch member config_loader order argv).map (·.2.1) =
      configured order config (arguments.erase (.name "config".toList)) := by
    rw [launch_eq hargs hload, configured]
    cases (order.visit (arguments.erase (.name "config".toList))).foldlM apply (config, []) <;> rfl
  rw [← noEmptyPath_erase, ← configured_same_for_all_orders_iff h (known_of_getopt hargs)]
  simp only [hconfigured]

/-- A path to the sources and an empty path to the mobile interface. -/
def Sample.emptyPath : List Written := [.assign "--sdl-src".toList "/s".toList, .assign "--sdl-mobile-api".toList []]

def Sample.base : Config :=
  (Table.empty.set "defaultPathToMobileInterface" (.text "/m".toList)).set "defaultPathToHMIInterface"
    (.text "/h".toList)

theorem launch_same_for_all_orders_iff_sample :
    ¬ ∀ order order', (launch (fun _ => false) (fun _ => .ok Sample.base) order
        ("modules/launch.lua".toList :: "t.lua".toList :: Sample.emptyPath.flatMap Written.render)).map (·.2.1) =
      (launch (fun _ => false) (fun _ => .ok Sample.base) order'
        ("modules/launch.lua".toList :: "t.lua".toList :: Sample.emptyPath.flatMap Written.render)).map (·.2.1) := by
  have hreq : ∀ w ∈ Sample.emptyPath, Required w := by
    simp only [Sample.emptyPath, List.mem_cons, List.not_mem_nil, or_false, forall_eq_or_imp, forall_eq]
    exact ⟨required_assign (by decide +kernel) _, required_assign (by decide +kernel) _⟩
  have hargs := getopt_written (fun _ => false) rfl "t.lua".toList (by decide +kernel) hreq (by decide +kernel) false
  simp only [Bool.false_eq_true, if_false, List.append_nil] at hargs
  rw [launch_same_for_all_orders_iff (fun _ => .ok Sample.base) hargs rfl ⟨rfl, rfl⟩]
  intro hno
  refine (hno "/s".toList ?_ (by decide +kernel)).1 ?_
  · rw [get_writtenArguments]
    decide +kernel
  · rw [get_writtenArguments]
    decide +kernel

/-! ### A command line of options -/

end Entered

end LaunchOptions
end Atf
