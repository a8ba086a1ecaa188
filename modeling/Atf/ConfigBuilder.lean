import Atf.Lib.Lua
import Atf.Lib.TableHeap

/-!
# The configuration builder

`buildConfiguration` merges the configurations into the base table one after another, in place: where both have a
table the merge goes down, and everywhere else the entry of the configuration replaces that of the base. A table of a
configuration that replaces something becomes part of the base, so later configurations are merged into it. As long
as the tables are trees that share nothing, a value is decided by the last configuration that has something to say
about its path.
-/

namespace Atf
open Lua

variable {κ α : Type} [DecidableEq κ]

/-! ### The builder -/

/-- One round of the loop of `addConfigurationFields`, where `descend` merges two subtables. -/
def addField (descend : Heap κ α → Ref → Ref → LuaM (Heap κ α)) (baseConfigTable : Ref) (h : Heap κ α)
    (field : (_ : κ) × Val α) : LuaM (Heap κ α) :=
  match field.2, h.get baseConfigTable field.1 with
  | .table v, some (.table b) => descend h b v
  | v, _ => .ok (h.set baseConfigTable field.1 v)

/-- `fuel` bounds the depth of the recursion, as the stack of Lua does. -/
def addConfigurationFields : (fuel : Nat) → Heap κ α → (baseConfigTable configTable : Ref) → LuaM (Heap κ α)
  | 0, _, _, _ => .error "stack overflow"
  | fuel + 1, h, baseConfigTable, configTable =>
    (h configTable).entries.foldlM (addField (addConfigurationFields fuel) baseConfigTable) h

structure ConfigurationBuilder where
  config : Ref
  environment : Option String
  configurationsList : List String

namespace ConfigurationBuilder

def addConfiguration (self : ConfigurationBuilder) (configurationName : String) : ConfigurationBuilder :=
  { self with configurationsList := self.configurationsList ++ [configurationName] }

def configFolderPath (self : ConfigurationBuilder) : String :=
  "configuration/" ++ self.environment.getD "" ++ "/"

/-- `require` answers with the value of a module, whose tables are in the heap, and with `none` when it raises. -/
def loadConfiguration (require : String → Option (Val α)) (fuel : Nat) (self : ConfigurationBuilder) (h : Heap κ α)
    (configName : String) : LuaM (Heap κ α) :=
  match require (self.configFolderPath ++ configName) with
  | none => .error
      ("ConfigurationBuilder: Configuration " ++ configName ++ " was not found in " ++ self.configFolderPath)
  | some (.scalar _) => .error "bad argument #1 to 'pairs' (table expected)"
  | some (.table newConfig) => addConfigurationFields fuel h self.config newConfig

def buildConfiguration (require : String → Option (Val α)) (fuel : Nat) (self : ConfigurationBuilder) (h : Heap κ α) :
    LuaM (Heap κ α) :=
  self.configurationsList.foldlM (self.loadConfiguration require fuel) h

/-- What is added last is merged last. -/
theorem buildConfiguration_addConfiguration (require : String → Option (Val α)) (fuel : Nat)
    (self : ConfigurationBuilder) (configurationName : String) (h : Heap κ α) :
    (self.addConfiguration configurationName).buildConfiguration require fuel h =
      self.buildConfiguration require fuel h >>= (self.loadConfiguration require fuel · configurationName) := by
  have hlist : (self.addConfiguration configurationName).configurationsList =
      self.configurationsList ++ [configurationName] := rfl
  have hload : (self.addConfiguration configurationName).loadConfiguration (κ := κ) require fuel =
      self.loadConfiguration require fuel := rfl
  rw [buildConfiguration, hlist, hload, List.foldlM_append]
  exact congrArg (self.buildConfiguration require fuel h >>= ·) (funext fun g => bind_pure _)

end ConfigurationBuilder

/-! ### What a merge says about a path -/

/-- The value at a path of the base table after the merge, as seen in the heap before it. -/
def merged (h : Heap κ α) : (base config : Ref) → List κ → Option (Val α)
  | base, _, [] => some (.table base)
  | base, config, k :: p =>
    match h.get config k, h.get base k with
    | none, _ => h.valueAt (.table base) (k :: p)
    | some (.table v), some (.table b) => merged h b v p
    | some v, _ => h.valueAt v p

/-- The configuration has an entry at the path or something else than a table in front of it. -/
def Overrides (h : Heap κ α) (config : Ref) (p : List κ) : Prop :=
  h.valueAt (.table config) p ≠ none ∨
    ∃ q a, q <+: p ∧ q ≠ p ∧ h.valueAt (.table config) q = some (.scalar a)

/-- A field is not in the configuration, or it is a table on both sides, or the entry of the configuration replaces
that of the base. -/
theorem field_cases (h : Heap κ α) (base config : Ref) (k : κ) :
    h.get config k = none ∨ (∃ c b, h.get config k = some (.table c) ∧ h.get base k = some (.table b)) ∨
      ∃ v, h.get config k = some v ∧ ∀ c b, v = .table c → h.get base k ≠ some (.table b) := by
  rcases hc : h.get config k with _ | v
  · exact .inl rfl
  · by_cases hboth : ∃ c b, v = .table c ∧ h.get base k = some (.table b)
    · obtain ⟨c, b, rfl, hb⟩ := hboth
      exact .inr (.inl ⟨c, b, rfl, hb⟩)
    · exact .inr (.inr ⟨v, rfl, fun c b hv hb => hboth ⟨c, b, hv, hb⟩⟩)

theorem merged_of_get_none {h : Heap κ α} {base config : Ref} {k : κ} (hc : h.get config k = none) (p : List κ) :
    merged h base config (k :: p) = h.valueAt (.table base) (k :: p) := by
  rw [merged, hc]

theorem merged_of_tables {h : Heap κ α} {base config b v : Ref} {k : κ} (hc : h.get config k = some (.table v))
    (hb : h.get base k = some (.table b)) (p : List κ) : merged h base config (k :: p) = merged h b v p := by
  rw [merged, hc, hb]

/-- Not both are tables, so the entry of the configuration replaces that of the base. -/
theorem merged_of_replaced {h : Heap κ α} {base config : Ref} {k : κ} {v : Val α} (hc : h.get config k = some v)
    (hnot : ∀ c b, v = .table c → h.get base k ≠ some (.table b)) (p : List κ) :
    merged h base config (k :: p) = h.valueAt v p := by
  rw [merged, hc]
  rcases v with a | c
  · rfl
  · rcases hb : h.get base k with _ | _ | b
    · rfl
    · rfl
    · exact absurd hb (hnot c b rfl)

theorem Overrides.cons {h : Heap κ α} {config c : Ref} {k : κ} {p : List κ} (hc : h.get config k = some (.table c))
    (ho : Overrides h c p) : Overrides h config (k :: p) := by
  rcases ho with hentry | ⟨q, a, ⟨r, hq⟩, hne, hleaf⟩
  · exact .inl (by rwa [Heap.valueAt_of_get hc])
  · refine .inr ⟨k :: q, a, ⟨r, by rw [List.cons_append, hq]⟩, ?_, (Heap.valueAt_of_get hc q).trans hleaf⟩
    intro heq
    exact hne (List.cons.inj heq).2

theorem overrides_of_scalar {h : Heap κ α} {config : Ref} {k : κ} {a : α} (hc : h.get config k = some (.scalar a))
    (p : List κ) : Overrides h config (k :: p) := by
  have hleaf : h.valueAt (.table config) [k] = some (.scalar a) := by rw [Heap.valueAt_of_get hc, Heap.valueAt_nil]
  rcases p with _ | ⟨k', p⟩
  · exact .inl (by rw [hleaf]; exact Option.some_ne_none _)
  · refine .inr ⟨[k], a, ⟨k' :: p, rfl⟩, ?_, hleaf⟩
    intro heq
    cases heq

/-- A value of the configuration stands in the result. -/
theorem merged_of_config {h : Heap κ α} {p : List κ} {a : α} {base config : Ref}
    (hp : h.valueAt (.table config) p = some (.scalar a)) : merged h base config p = some (.scalar a) := by
  induction p generalizing base config with
  | nil =>
    rw [Heap.valueAt_nil] at hp
    cases hp
  | cons k p ih =>
    rcases field_cases h base config k with hc | ⟨c, b, hc, hb⟩ | ⟨v, hc, hnot⟩
    · rw [Heap.valueAt_table_cons, hc] at hp
      cases hp
    · rw [Heap.valueAt_of_get hc] at hp
      rw [merged_of_tables hc hb]
      exact ih hp
    · rw [Heap.valueAt_of_get hc] at hp
      rw [merged_of_replaced hc hnot, hp]

/-- A value of the base that the configuration does not override stays. -/
theorem merged_of_base {h : Heap κ α} {p : List κ} {a : α} {base config : Ref}
    (hp : h.valueAt (.table base) p = some (.scalar a)) (hno : ¬ Overrides h config p) :
    merged h base config p = some (.scalar a) := by
  induction p generalizing base config with
  | nil =>
    rw [Heap.valueAt_nil] at hp
    cases hp
  | cons k p ih =>
    rcases hc : h.get config k with _ | v
    · rw [merged_of_get_none hc, hp]
    rcases hb : h.get base k with _ | w
    · rw [Heap.valueAt_table_cons, hb] at hp
      cases hp
    rw [Heap.valueAt_of_get hb] at hp
    rcases v with a' | c
    · exact absurd (overrides_of_scalar hc p) hno
    rcases w with a' | b
    · -- the path ends at the base's value, which the table replaces
      rcases p with _ | ⟨k', p⟩
      · refine absurd (.inl ?_) hno
        rw [Heap.valueAt_of_get hc, Heap.valueAt_nil]
        exact Option.some_ne_none _
      · cases hp
    · rw [merged_of_tables hc hb]
      exact ih hp fun ho => hno (ho.cons hc)

/-- Every table of the result is a table of the base or of the configuration, and it is at its old place. -/
theorem merged_eq_table {h : Heap κ α} {p : List κ} {base config r : Ref}
    (hp : merged h base config p = some (.table r)) :
    h.valueAt (.table base) p = some (.table r) ∨ h.valueAt (.table config) p = some (.table r) := by
  induction p generalizing base config with
  | nil =>
    rw [merged] at hp
    exact .inl (by rw [Heap.valueAt_nil, hp])
  | cons k p ih =>
    rcases field_cases h base config k with hc | ⟨c, b, hc, hb⟩ | ⟨v, hc, hnot⟩
    · rw [merged_of_get_none hc] at hp
      exact .inl hp
    · rw [merged_of_tables hc hb] at hp
      rw [Heap.valueAt_of_get hc, Heap.valueAt_of_get hb]
      exact ih hp
    · rw [merged_of_replaced hc hnot] at hp
      exact .inr ((Heap.valueAt_of_get hc p).trans hp)

theorem merged_congr {g h : Heap κ α} {base config : Ref} (hb : ∀ r, h.Reaches (.table base) r → g r = h r)
    (hc : ∀ r, h.Reaches (.table config) r → g r = h r) (p : List κ) :
    merged g base config p = merged h base config p := by
  induction p generalizing base config with
  | nil => rw [merged, merged]
  | cons k p ih =>
    have hgetc := Heap.get_congr (hc config (h.reaches_self config)) k
    have hgetb := Heap.get_congr (hb base (h.reaches_self base)) k
    rcases field_cases h base config k with hck | ⟨c, b, hck, hbk⟩ | ⟨v, hck, hnot⟩
    · rw [merged_of_get_none hck, merged_of_get_none (hgetc.trans hck), Heap.valueAt_congr hb]
    · rw [merged_of_tables hck hbk, merged_of_tables (hgetc.trans hck) (hgetb.trans hbk)]
      exact ih (fun r hr => hb r (hr.entry hbk)) fun r hr => hc r (hr.entry hck)
    · rw [merged_of_replaced hck hnot,
        merged_of_replaced (hgetc.trans hck) fun c b hv => by rw [hgetb]; exact hnot c b hv]
      exact Heap.valueAt_congr (fun r hr => hc r (hr.entry hck)) p

/-! ### The loop over the fields -/

theorem addField_descend {descend : Heap κ α → Ref → Ref → LuaM (Heap κ α)} {base b c : Ref} {g : Heap κ α} {k : κ}
    (hb : g.get base k = some (.table b)) : addField descend base g ⟨k, .table c⟩ = descend g b c := by
  simp only [addField, hb]

theorem addField_replace {descend : Heap κ α → Ref → Ref → LuaM (Heap κ α)} {base : Ref} {g : Heap κ α} {k : κ}
    {v : Val α} (hnot : ∀ c b, v = .table c → g.get base k ≠ some (.table b)) :
    addField descend base g ⟨k, v⟩ = .ok (g.set base k v) := by
  rcases v with a | c
  · rfl
  · rcases hb : g.get base k with _ | _ | b
    · simp only [addField, hb]
    · simp only [addField, hb]
    · exact absurd hb (hnot c b rfl)

/-- The base is a tree, and the configuration has no table of it. -/
structure Mergeable (h : Heap κ α) (base config : Ref) : Prop where
  tree : h.IsTree (.table base)
  apart : h.Apart (.table base) (.table config)

/-- What a merge does to the heap: it writes to tables of the base only, and the base becomes `merged`. -/
structure MergedInto (h h' : Heap κ α) (base config : Ref) : Prop where
  outside : ∀ r, ¬ h.Reaches (.table base) r → h' r = h r
  value : ∀ p, h'.valueAt (.table base) p = merged h base config p

/-- The heap `g` in the loop, `rest` of the fields still to come. -/
structure Merging (h g : Heap κ α) (base config : Ref) (rest : List ((_ : κ) × Val α)) : Prop where
  outside : ∀ r, ¬ h.Reaches (.table base) r → g r = h r
  -- the fields of the base that have been merged or need not be
  done : ∀ k, k ∉ rest.keys → ∀ p, g.valueAt (.table base) (k :: p) = merged h base config (k :: p)
  -- the fields still to be merged, and the tables behind them
  field : ∀ k ∈ rest.keys, g.get base k = h.get base k
  below : ∀ k ∈ rest.keys, ∀ v, h.get base k = some v → ∀ r, h.Reaches v r → g r = h r

theorem Merging.start (h : Heap κ α) (base config : Ref) : Merging h h base config (h config).entries where
  outside _ _ := rfl
  done k hk p := by
    rw [merged_of_get_none (AList.lookup_eq_none.mpr hk)]
  field _ _ := rfl
  below _ _ _ _ _ _ := rfl

section Step

variable {h g : Heap κ α} {base config : Ref} {k : κ} {v : Val α} {rest : List ((_ : κ) × Val α)}

/-- What the configuration reaches is untouched. -/
theorem Merging.config_eq (hm : Mergeable h base config) (hg : Merging h g base config rest) (r : Ref)
    (hr : h.Reaches (.table config) r) : g r = h r :=
  hg.outside r fun hbase => hm.apart r hbase hr

/-- A table behind a merged field is not the base and not behind another field of it. -/
theorem Merging.reaches_done (hm : Mergeable h base config) (hg : Merging h g base config rest) {w : Val α}
    (hk : k ∉ rest.keys) (hget : g.get base k = some w) {r : Ref} (hr : g.Reaches w r) :
    r ≠ base ∧ ∀ k' ≠ k, ∀ w', h.get base k' = some w' → ¬ h.Reaches w' r := by
  obtain ⟨p, hp⟩ := hr
  have hmerged : merged h base config (k :: p) = some (.table r) := by
    rw [← hg.done k hk, Heap.valueAt_of_get hget, hp]
  rcases merged_eq_table hmerged with hbase | hconfig
  · constructor
    · rintro rfl
      exact List.cons_ne_nil k p (hm.tree _ _ _ hbase (Heap.valueAt_nil h _))
    · rintro k' hne w' hw' ⟨q, hq⟩
      exact hne (List.cons.inj (hm.tree _ _ _ ((Heap.valueAt_of_get hw' q).trans hq) hbase)).1
  · constructor
    · rintro rfl
      exact hm.apart _ (h.reaches_self _) ⟨_, hconfig⟩
    · intro k' _ w' hw' hr
      exact hm.apart r (hr.entry hw') ⟨_, hconfig⟩

/-- A round that leaves every table behind the other fields alone keeps the invariant. -/
theorem Merging.step (hm : Mergeable h base config) (hg : Merging h g base config (⟨k, v⟩ :: rest))
    (hnodup : (⟨k, v⟩ :: rest : List ((_ : κ) × Val α)).NodupKeys) {g' : Heap κ α}
    (houtside : ∀ r, ¬ h.Reaches (.table base) r → g' r = g r)
    (hfield : ∀ k' ≠ k, g'.get base k' = g.get base k')
    (hbelow : ∀ r, r ≠ base → (∀ w, h.get base k = some w → ¬ h.Reaches w r) → g' r = g r)
    (hvalue : ∀ p, g'.valueAt (.table base) (k :: p) = merged h base config (k :: p)) :
    Merging h g' base config rest := by
  have hkeys : k ∉ rest.keys := (List.nodupKeys_cons.mp hnodup).1
  have hne : ∀ k' ∈ rest.keys, k' ≠ k := by
    rintro k' hk' rfl
    exact hkeys hk'
  refine ⟨fun r hr => (houtside r hr).trans (hg.outside r hr), ?_, ?_, ?_⟩
  · intro k' hk' p
    by_cases hkk : k' = k
    · rw [hkk]
      exact hvalue p
    have hk : k' ∉ (⟨k, v⟩ :: rest : List ((_ : κ) × Val α)).keys := by
      simpa [List.keys_cons, hkk] using hk'
    rw [← hg.done k' hk, Heap.valueAt_table_cons, Heap.valueAt_table_cons, hfield k' hkk]
    rcases hget : g.get base k' with _ | w
    · rfl
    · refine Heap.valueAt_congr (fun r hr => ?_) p
      obtain ⟨hbase, hother⟩ := hg.reaches_done hm hk hget hr
      exact hbelow r hbase (hother k (Ne.symm hkk))
  · intro k' hk'
    rw [hfield k' (hne k' hk')]
    exact hg.field k' (List.mem_cons_of_mem _ hk')
  · intro k' hk' w hw r hr
    rw [← hg.below k' (List.mem_cons_of_mem _ hk') w hw r hr]
    refine hbelow r ?_ fun w' hw' => ?_
    · rintro rfl
      exact hm.tree.not_reaches hw hr
    · exact hm.tree.entries_apart hw hw' (hne k' hk').symm r hr

end Step

theorem Merging.finish {h g : Heap κ α} {base config : Ref} (hg : Merging h g base config []) :
    MergedInto h g base config := by
  refine ⟨hg.outside, fun p => ?_⟩
  rcases p with _ | ⟨k, p⟩
  · rw [Heap.valueAt_nil, merged]
  · exact hg.done k List.not_mem_nil p

/-- The merge of depth `fuel` does what it should. -/
def MergeSpec (κ α : Type) [DecidableEq κ] (fuel : Nat) : Prop :=
  ∀ (h : Heap κ α) (base config : Ref), Mergeable h base config → h.Depth (.table config) fuel →
    ∃ h', addConfigurationFields fuel h base config = .ok h' ∧ MergedInto h h' base config

section Loop

variable {fuel : Nat} {h : Heap κ α} {base config : Ref}

/-- Where both have a table, the round is a merge of the subtables. -/
theorem Merging.descend (ih : MergeSpec κ α fuel) (hm : Mergeable h base config)
    (hd : h.Depth (.table config) (fuel + 1)) {g : Heap κ α} {k : κ} {b c : Ref} {rest : List ((_ : κ) × Val α)}
    (hg : Merging h g base config (⟨k, .table c⟩ :: rest))
    (hnodup : (⟨k, .table c⟩ :: rest : List ((_ : κ) × Val α)).NodupKeys)
    (hc : h.get config k = some (.table c)) (hb : h.get base k = some (.table b)) :
    ∃ g', addConfigurationFields fuel g b c = .ok g' ∧ Merging h g' base config rest := by
  have hbelow : ∀ r, h.Reaches (.table b) r → g r = h r := hg.below k List.mem_cons_self _ hb
  have hconfig : ∀ r, h.Reaches (.table c) r → g r = h r := fun r hr => hg.config_eq hm r (hr.entry hc)
  have hmergeable : Mergeable g b c :=
    ⟨(hm.tree.entry hb).congr hbelow, (hm.apart.entries hb hc).congr hbelow hconfig⟩
  obtain ⟨g', hok, hinto⟩ := ih g b c hmergeable ((hd.entry hc).congr hconfig)
  have hother : ∀ r, ¬ h.Reaches (.table b) r → g' r = g r := fun r hr =>
    hinto.outside r fun hreach => hr ((Heap.reaches_congr hbelow r).mp hreach)
  have hget : ∀ k', g'.get base k' = g.get base k' := Heap.get_congr (hother base (hm.tree.not_reaches hb))
  refine ⟨g', hok, hg.step hm hnodup ?_ (fun k' _ => hget k') ?_ fun p => ?_⟩
  · exact fun r hr => hother r fun hreach => hr (hreach.entry hb)
  · exact fun r _ hr => hother r (hr _ hb)
  · have hgetk : g'.get base k = some (.table b) := by rw [hget, hg.field k List.mem_cons_self, hb]
    rw [Heap.valueAt_of_get hgetk, hinto.value, merged_congr hbelow hconfig, merged_of_tables hc hb]

/-- Everywhere else it is a store in the base. -/
theorem Merging.replace (hm : Mergeable h base config) {g : Heap κ α} {k : κ} {v : Val α}
    {rest : List ((_ : κ) × Val α)} (hg : Merging h g base config (⟨k, v⟩ :: rest))
    (hnodup : (⟨k, v⟩ :: rest : List ((_ : κ) × Val α)).NodupKeys) (hc : h.get config k = some v)
    (hnot : ∀ c b, v = .table c → h.get base k ≠ some (.table b)) : Merging h (g.set base k v) base config rest := by
  refine hg.step hm hnodup ?_ (fun k' hk' => Heap.get_set_of_ne g base v hk') ?_ fun p => ?_
  · intro r hr
    refine Heap.set_of_ne g k v ?_
    rintro rfl
    exact hr (h.reaches_self _)
  · exact fun r hr _ => Heap.set_of_ne g k v hr
  · rw [Heap.valueAt_of_get (Heap.get_set_self g base k v), merged_of_replaced hc hnot]
    refine Heap.valueAt_congr (fun r hr => ?_) p
    have hne : r ≠ base := by
      rintro rfl
      exact hm.apart _ (h.reaches_self _) (hr.entry hc)
    rw [Heap.set_of_ne g k v hne, hg.config_eq hm r (hr.entry hc)]

theorem Merging.loop (ih : MergeSpec κ α fuel) (hm : Mergeable h base config)
    (hd : h.Depth (.table config) (fuel + 1)) {g : Heap κ α} {rest : List ((_ : κ) × Val α)}
    (hg : Merging h g base config rest) (hnodup : rest.NodupKeys)
    (hrest : ∀ k v, ⟨k, v⟩ ∈ rest → h.get config k = some v) :
    ∃ g', rest.foldlM (addField (addConfigurationFields fuel) base) g = .ok g' ∧ Merging h g' base config [] := by
  induction rest generalizing g with
  | nil => exact ⟨g, rfl, hg⟩
  | cons e rest ihrest =>
    obtain ⟨k, v⟩ := e
    have hc : h.get config k = some v := hrest k v List.mem_cons_self
    have hfield : g.get base k = h.get base k := hg.field k List.mem_cons_self
    have hround : ∃ g', addField (addConfigurationFields fuel) base g ⟨k, v⟩ = .ok g' ∧
        Merging h g' base config rest := by
      rcases field_cases h base config k with hnone | ⟨c, b, hc', hb⟩ | ⟨w, hc', hnot⟩
      · exact absurd (hc.symm.trans hnone) (Option.some_ne_none v)
      · obtain rfl : v = .table c := Option.some.inj (hc.symm.trans hc')
        rw [addField_descend (hfield.trans hb)]
        exact hg.descend ih hm hd hnodup hc hb
      · obtain rfl : v = w := Option.some.inj (hc.symm.trans hc')
        rw [addField_replace fun c b hv => by rw [hfield]; exact hnot c b hv]
        exact ⟨_, rfl, hg.replace hm hnodup hc hnot⟩
    obtain ⟨g', hok, hg'⟩ := hround
    obtain ⟨g'', hloop, hend⟩ :=
      ihrest hg' (List.nodupKeys_cons.mp hnodup).2 fun k v hkv => hrest k v (List.mem_cons_of_mem _ hkv)
    exact ⟨g'', by rw [List.foldlM_cons, hok]; exact hloop, hend⟩

end Loop

theorem addConfigurationFields_spec (fuel : Nat) : MergeSpec κ α fuel := by
  induction fuel with
  | zero =>
    intro h base config _ hd
    exact absurd (hd [] config (Heap.valueAt_nil h _)) (Nat.not_lt_zero _)
  | succ fuel ih =>
    intro h base config hm hd
    obtain ⟨h', hok, hend⟩ := (Merging.start h base config).loop ih hm hd (h config).nodupKeys
      fun k v hkv => Heap.get_of_mem hkv
    exact ⟨h', hok, hend.finish⟩

/-! ### One configuration after another -/

section Steps

variable {h h' : Heap κ α} {base config : Ref}

theorem MergedInto.isTree (hi : MergedInto h h' base config) (hm : Mergeable h base config)
    (hc : h.IsTree (.table config)) : h'.IsTree (.table base) := by
  intro p q r hp hq
  rw [hi.value] at hp hq
  rcases merged_eq_table hp with hp | hp <;> rcases merged_eq_table hq with hq | hq
  · exact hm.tree p q r hp hq
  · exact absurd ⟨q, hq⟩ (hm.apart r ⟨p, hp⟩)
  · exact absurd ⟨p, hp⟩ (hm.apart r ⟨q, hq⟩)
  · exact hc p q r hp hq

/-- A configuration that comes later has not been touched. -/
theorem MergedInto.later_eq (hi : MergedInto h h' base config) {later : Ref}
    (hb : h.Apart (.table base) (.table later)) (r : Ref) (hr : h.Reaches (.table later) r) : h' r = h r :=
  hi.outside r fun hbase => hb r hbase hr

theorem MergedInto.apart (hi : MergedInto h h' base config) {later : Ref}
    (hb : h.Apart (.table base) (.table later)) (hc : h.Apart (.table config) (.table later)) :
    h'.Apart (.table base) (.table later) := by
  rintro r ⟨p, hp⟩ hr
  rw [Heap.reaches_congr (hi.later_eq hb)] at hr
  rw [hi.value] at hp
  rcases merged_eq_table hp with hp | hp
  · exact hb r ⟨p, hp⟩ hr
  · exact hc r ⟨p, hp⟩ hr

theorem Overrides.congr {g : Heap κ α} (heq : ∀ r, h.Reaches (.table config) r → g r = h r) (p : List κ) :
    Overrides g config p ↔ Overrides h config p := by
  simp only [Overrides, Heap.valueAt_congr heq]

end Steps

/-- The base and the configurations still to be merged are trees that share nothing. -/
structure Separate (h : Heap κ α) (base : Ref) (tables : List Ref) : Prop where
  trees : ∀ r ∈ base :: tables, h.IsTree (.table r)
  apart : (base :: tables).Pairwise fun r s => h.Apart (.table r) (.table s)

theorem Separate.mergeable {h : Heap κ α} {base config : Ref} {tables : List Ref}
    (hs : Separate h base (config :: tables)) : Mergeable h base config :=
  ⟨hs.trees base List.mem_cons_self, (List.pairwise_cons.mp hs.apart).1 config List.mem_cons_self⟩

theorem Separate.step {h h' : Heap κ α} {base config : Ref} {tables : List Ref}
    (hs : Separate h base (config :: tables)) (hi : MergedInto h h' base config) : Separate h' base tables := by
  obtain ⟨hbase, hrest⟩ := List.pairwise_cons.mp hs.apart
  obtain ⟨hconfig, hlater⟩ := List.pairwise_cons.mp hrest
  have heq : ∀ c ∈ tables, ∀ r, h.Reaches (.table c) r → h' r = h r := fun c hc =>
    hi.later_eq (hbase c (List.mem_cons_of_mem _ hc))
  refine ⟨?_, List.pairwise_cons.mpr ⟨?_, ?_⟩⟩
  · intro r hr
    rcases List.mem_cons.mp hr with rfl | hr
    · exact hi.isTree hs.mergeable (hs.trees config (List.mem_cons_of_mem _ List.mem_cons_self))
    · exact (hs.trees r (List.mem_cons_of_mem _ (List.mem_cons_of_mem _ hr))).congr (heq r hr)
  · exact fun c hc => hi.apart (hbase c (List.mem_cons_of_mem _ hc)) (hconfig c hc)
  · exact hlater.imp_of_mem fun hc hd hcd => hcd.congr (heq _ hc) (heq _ hd)

/-- A value of a configuration is in the result unless a later configuration overrides it, and a value of the base
unless some configuration does. -/
structure Priorities (h h' : Heap κ α) (base : Ref) (tables : List Ref) : Prop where
  config : ∀ before config later, tables = before ++ config :: later → ∀ p a,
    h.valueAt (.table config) p = some (.scalar a) → (∀ c ∈ later, ¬ Overrides h c p) →
      h'.valueAt (.table base) p = some (.scalar a)
  base : ∀ p a, h.valueAt (.table base) p = some (.scalar a) → (∀ c ∈ tables, ¬ Overrides h c p) →
    h'.valueAt (.table base) p = some (.scalar a)

theorem Priorities.cons {h g h' : Heap κ α} {base config : Ref} {tables : List Ref}
    (hs : Separate h base (config :: tables)) (hi : MergedInto h g base config) (hp : Priorities g h' base tables) :
    Priorities h h' base (config :: tables) := by
  have heq : ∀ c ∈ tables, ∀ r, h.Reaches (.table c) r → g r = h r := fun c hc =>
    hi.later_eq ((List.pairwise_cons.mp hs.apart).1 c (List.mem_cons_of_mem _ hc))
  have hno : ∀ {p : List κ} {later : List Ref}, (∀ c ∈ later, c ∈ tables) → (∀ c ∈ later, ¬ Overrides h c p) →
      ∀ c ∈ later, ¬ Overrides g c p := fun hsub hl c hc ho =>
    hl c hc ((Overrides.congr (heq c (hsub c hc)) _).mp ho)
  constructor
  · rintro (_ | ⟨first, before⟩) config' later hsplit p a hval hlater
    · -- this configuration, so nothing after it overrides the value
      obtain ⟨rfl, rfl⟩ := List.cons.inj hsplit
      exact hp.base p a (by rw [hi.value, merged_of_config hval]) (hno (fun _ hc => hc) hlater)
    · obtain ⟨rfl, htables⟩ := List.cons.inj hsplit
      have hmem : ∀ c ∈ config' :: later, c ∈ tables := fun c hc => htables ▸ List.mem_append_right before hc
      refine hp.config before config' later htables p a ?_ (hno (fun c hc => hmem c (List.mem_cons_of_mem _ hc)) hlater)
      rw [Heap.valueAt_congr (heq config' (hmem config' List.mem_cons_self)), hval]
  · intro p a hval hnone
    refine hp.base p a ?_ (hno (fun _ hc => hc) fun c hc => hnone c (List.mem_cons_of_mem _ hc))
    rw [hi.value, merged_of_base hval (hnone config List.mem_cons_self)]

theorem mergeAll_spec {fuel : Nat} {base : Ref} {tables : List Ref} {h : Heap κ α} (hs : Separate h base tables)
    (hd : ∀ c ∈ tables, h.Depth (.table c) fuel) :
    ∃ h', tables.foldlM (fun h c => addConfigurationFields fuel h base c) h = .ok h' ∧
      Priorities h h' base tables := by
  induction tables generalizing h with
  | nil =>
    refine ⟨h, rfl, ?_, fun p a hval _ => hval⟩
    intro before config later hsplit
    simp at hsplit
  | cons config tables ih =>
    obtain ⟨g, hok, hi⟩ := addConfigurationFields_spec fuel h base config hs.mergeable (hd config List.mem_cons_self)
    have hdepth : ∀ c ∈ tables, g.Depth (.table c) fuel := fun c hc =>
      (hd c (List.mem_cons_of_mem _ hc)).congr
        (hi.later_eq ((List.pairwise_cons.mp hs.apart).1 c (List.mem_cons_of_mem _ hc)))
    obtain ⟨h', hrest, hp⟩ := ih (hs.step hi) hdepth
    exact ⟨h', by rw [List.foldlM_cons, hok]; exact hrest, hp.cons hs hi⟩

/-! ### The whole build -/

theorem loadConfiguration_eq {require : String → Option (Val α)} {self : ConfigurationBuilder} {name : String} {c : Ref}
    (hname : require (self.configFolderPath ++ name) = some (.table c)) (fuel : Nat) (h : Heap κ α) :
    self.loadConfiguration require fuel h name = addConfigurationFields fuel h self.config c := by
  rw [ConfigurationBuilder.loadConfiguration, hname]

theorem loadAll_eq {require : String → Option (Val α)} {self : ConfigurationBuilder} {names : List String}
    {tables : List Ref} (hload : names.map (fun name => require (self.configFolderPath ++ name)) =
      tables.map fun c => some (.table c)) (fuel : Nat) (h : Heap κ α) :
    names.foldlM (self.loadConfiguration require fuel) h =
      tables.foldlM (fun h c => addConfigurationFields fuel h self.config c) h := by
  induction names generalizing tables h with
  | nil =>
    obtain rfl := List.map_eq_nil_iff.mp hload.symm
    rfl
  | cons name names ih =>
    rcases tables with _ | ⟨c, tables⟩
    · cases hload
    obtain ⟨hname, hnames⟩ := List.cons.inj hload
    rw [List.foldlM_cons, List.foldlM_cons, loadConfiguration_eq hname]
    exact congrArg (addConfigurationFields fuel h self.config c >>= ·) (funext fun g => ih hnames g)

/-- A tree of finite depth. -/
structure FiniteTree (h : Heap κ α) (v : Val α) : Prop where
  isTree : h.IsTree v
  depth : ∃ n, h.Depth v n

theorem exists_depth {h : Heap κ α} {tables : List Ref} (ht : ∀ c ∈ tables, FiniteTree h (.table c)) :
    ∃ n, ∀ c ∈ tables, h.Depth (.table c) n := by
  induction tables with
  | nil => exact ⟨0, by simp⟩
  | cons c tables ih =>
    obtain ⟨n, hn⟩ := ih fun d hd => ht d (List.mem_cons_of_mem _ hd)
    obtain ⟨m, hm⟩ := (ht c List.mem_cons_self).depth
    refine ⟨max m n, fun d hd => ?_⟩
    rcases List.mem_cons.mp hd with rfl | hd
    · exact hm.mono (Nat.le_max_left m n)
    · exact (hn d hd).mono (Nat.le_max_right m n)

/-- Loading returns, with every value of a configuration that no later one overrides, and every value of the base that
no configuration does, if all are finite trees apart from each other. -/
theorem configuration_priorities (require : String → Option (Val α)) (self : ConfigurationBuilder) (h : Heap κ α)
    (tables : List Ref)
    (hload : self.configurationsList.map (fun name => require (self.configFolderPath ++ name)) =
      tables.map fun c => some (.table c))
    (htrees : ∀ r ∈ self.config :: tables, FiniteTree h (.table r))
    (hapart : (self.config :: tables).Pairwise fun r s => h.Apart (.table r) (.table s)) :
    ∃ n, ∀ fuel, n ≤ fuel → ∃ h', self.buildConfiguration require fuel h = .ok h' ∧
      Priorities h h' self.config tables := by
  obtain ⟨n, hn⟩ := exists_depth fun c hc => htrees c (List.mem_cons_of_mem _ hc)
  refine ⟨n, fun fuel hfuel => ?_⟩
  rw [ConfigurationBuilder.buildConfiguration, loadAll_eq hload]
  exact mergeAll_spec ⟨fun r hr => (htrees r hr).isTree, hapart⟩ fun c hc => (hn c hc).mono hfuel

/-! ### A base and two configurations -/

theorem valueAt_of_flat {h : Heap κ α} {r s : Ref} (hflat : ∀ k t, h.get r k ≠ some (.table t)) {p : List κ}
    (hp : h.valueAt (.table r) p = some (.table s)) : p = [] ∧ s = r := by
  rcases p with _ | ⟨k, p⟩
  · rw [Heap.valueAt_nil] at hp
    cases hp
    exact ⟨rfl, rfl⟩
  · rcases hget : h.get r k with _ | a | t
    · rw [Heap.valueAt_table_cons, hget] at hp
      cases hp
    · rw [Heap.valueAt_of_get hget] at hp
      rcases p with _ | ⟨k', p⟩ <;> cases hp
    · exact absurd hget (hflat k t)

/-- The tables of a table with one subtable. -/
theorem valueAt_of_one {h : Heap κ α} {r s t : Ref} {k : κ}
    (hone : ∀ k' t', h.get r k' = some (.table t') → k' = k ∧ t' = t)
    (hflat : ∀ k t', h.get t k ≠ some (.table t')) {p : List κ} (hp : h.valueAt (.table r) p = some (.table s)) :
    p = [] ∧ s = r ∨ p = [k] ∧ s = t := by
  rcases p with _ | ⟨k', p⟩
  · rw [Heap.valueAt_nil] at hp
    cases hp
    exact .inl ⟨rfl, rfl⟩
  · rcases hget : h.get r k' with _ | a | t'
    · rw [Heap.valueAt_table_cons, hget] at hp
      cases hp
    · rw [Heap.valueAt_of_get hget] at hp
      rcases p with _ | ⟨k', p⟩ <;> cases hp
    · obtain ⟨rfl, rfl⟩ := hone k' t' hget
      rw [Heap.valueAt_of_get hget] at hp
      obtain ⟨rfl, rfl⟩ := valueAt_of_flat hflat hp
      exact .inr ⟨rfl, rfl⟩

theorem FiniteTree.of_one {h : Heap κ α} {r t : Ref} {k : κ}
    (hone : ∀ k' t', h.get r k' = some (.table t') → k' = k ∧ t' = t)
    (hflat : ∀ k t', h.get t k ≠ some (.table t')) (hne : t ≠ r) : FiniteTree h (.table r) := by
  refine ⟨fun p q s hp hq => ?_, 2, fun p s hp => ?_⟩
  · rcases valueAt_of_one hone hflat hp with ⟨rfl, hs⟩ | ⟨rfl, hs⟩ <;>
      rcases valueAt_of_one hone hflat hq with ⟨rfl, hs'⟩ | ⟨rfl, hs'⟩
    · rfl
    · exact absurd (hs'.symm.trans hs) hne
    · exact absurd (hs.symm.trans hs') hne
    · rfl
  · rcases valueAt_of_one hone hflat hp with ⟨rfl, -⟩ | ⟨rfl, -⟩ <;> simp

theorem not_overrides_of_none {h : Heap κ α} {config : Ref} {k : κ} (hc : h.get config k = none) :
    ¬ Overrides h config [k] := by
  rintro (hentry | ⟨q, a, hpre, hne, hleaf⟩)
  · rw [Heap.valueAt_table_cons, hc] at hentry
    exact hentry rfl
  · rcases q with _ | ⟨k', q⟩
    · cases hleaf
    · obtain ⟨rfl, hq⟩ := List.cons_prefix_cons.mp hpre
      exact hne (by rw [List.prefix_nil.mp hq])

theorem not_overrides_cons {h : Heap κ α} {config c : Ref} {k : κ} {p : List κ} (hc : h.get config k = some (.table c))
    (ho : ¬ Overrides h c p) : ¬ Overrides h config (k :: p) := by
  rintro (hentry | ⟨q, a, hpre, hne, hleaf⟩)
  · rw [Heap.valueAt_of_get hc] at hentry
    exact ho (.inl hentry)
  · rcases q with _ | ⟨k', q⟩
    · cases hleaf
    · obtain ⟨rfl, hq⟩ := List.cons_prefix_cons.mp hpre
      rw [Heap.valueAt_of_get hc] at hleaf
      exact ho (.inr ⟨q, a, hq, fun heq => hne (by rw [heq]), hleaf⟩)

/-- The base in table 0 and configurations in tables 2 and 4, each with one subtable. -/
def remoteHeap : Heap String String
  | 0 => ⟨[⟨"reportPath", .scalar "./reports"⟩, ⟨"remoteConnection", .table 1⟩], by simp [List.NodupKeys]⟩
  | 1 => ⟨[⟨"enabled", .scalar "false"⟩, ⟨"port", .scalar "5555"⟩], by simp [List.NodupKeys]⟩
  | 2 => ⟨[⟨"remoteConnection", .table 3⟩], by simp [List.NodupKeys]⟩
  | 3 => ⟨[⟨"enabled", .scalar "true"⟩, ⟨"port", .scalar "5556"⟩], by simp [List.NodupKeys]⟩
  | 4 => ⟨[⟨"remoteConnection", .table 5⟩], by simp [List.NodupKeys]⟩
  | 5 => ⟨[⟨"port", .scalar "7777"⟩], by simp [List.NodupKeys]⟩
  | _ => ∅

theorem remoteHeap_subtable (r : Ref) (hr : r ∈ [0, 2, 4]) (k : String) (t : Ref)
    (hget : remoteHeap.get r k = some (.table t)) : k = "remoteConnection" ∧ t = r + 1 := by
  have hr : r = 0 ∨ r = 2 ∨ r = 4 := by simpa using hr
  rcases hr with rfl | rfl | rfl <;> simpa [remoteHeap] using AList.mem_lookup_iff.mp hget

theorem remoteHeap_flat (r : Ref) (hr : r ∈ [0, 2, 4]) (k : String) (t : Ref) :
    remoteHeap.get (r + 1) k ≠ some (.table t) := by
  intro hget
  have hr : r = 0 ∨ r = 2 ∨ r = 4 := by simpa using hr
  rcases hr with rfl | rfl | rfl <;> simpa [remoteHeap] using AList.mem_lookup_iff.mp hget

theorem remoteHeap_trees : ∀ r ∈ [0, 2, 4], FiniteTree remoteHeap (.table r) := fun r hr =>
  .of_one (remoteHeap_subtable r hr) (remoteHeap_flat r hr) (Nat.succ_ne_self r)

theorem remoteHeap_apart : [0, 2, 4].Pairwise fun r s => remoteHeap.Apart (.table r) (.table s) := by
  have hsteps : [0, 2, 4].Pairwise fun r s : Ref => r + 1 < s := by decide
  refine hsteps.imp_of_mem ?_
  rintro r s hr hs hlt t ⟨p, hp⟩ ⟨q, hq⟩
  have hbase := valueAt_of_one (remoteHeap_subtable r hr) (remoteHeap_flat r hr) hp
  have hconfig := valueAt_of_one (remoteHeap_subtable s hs) (remoteHeap_flat s hs) hq
  rcases hbase with ⟨-, rfl⟩ | ⟨-, rfl⟩ <;> rcases hconfig with ⟨-, hs⟩ | ⟨-, hs⟩
  all_goals
    have hlt : (_ : Nat) < _ := hlt
    have hs : (_ : Nat) = _ := hs
    omega

def remoteRequire (path : String) : Option (Val String) :=
  if path = "configuration/genivi/remote" then some (.table 2)
  else if path = "configuration/genivi/lab" then some (.table 4)
  else none

/-- The later configuration overrides the port of the first one, not what the first one enables. -/
theorem configuration_priorities_remote : ∃ n, ∀ fuel, n ≤ fuel → ∃ h',
    (ConfigurationBuilder.mk 0 (some "genivi") ["remote", "lab"]).buildConfiguration remoteRequire fuel remoteHeap =
        .ok h' ∧
      h'.valueAt (.table 0) ["remoteConnection", "port"] = some (.scalar "7777") ∧
      h'.valueAt (.table 0) ["remoteConnection", "enabled"] = some (.scalar "true") ∧
      h'.valueAt (.table 0) ["reportPath"] = some (.scalar "./reports") := by
  obtain ⟨n, hn⟩ := configuration_priorities remoteRequire ⟨0, some "genivi", ["remote", "lab"]⟩ remoteHeap [2, 4]
    (by decide +kernel) remoteHeap_trees remoteHeap_apart
  refine ⟨n, fun fuel hfuel => ?_⟩
  obtain ⟨h', hok, hp⟩ := hn fuel hfuel
  refine ⟨h', hok, hp.config [2] 4 [] rfl _ _ (by decide +kernel) (by simp), ?_, ?_⟩
  · refine hp.config [] 2 [4] rfl _ _ (by decide +kernel) fun c hc => ?_
    rw [List.mem_singleton.mp hc]
    exact not_overrides_cons (c := 5) (by decide +kernel) (not_overrides_of_none (by decide +kernel))
  · refine hp.base _ _ (by decide +kernel) fun c hc => ?_
    have hc : c = 2 ∨ c = 4 := by simpa using hc
    rcases hc with rfl | rfl <;> exact not_overrides_of_none (by decide +kernel)

end Atf
