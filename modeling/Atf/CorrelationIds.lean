import Atf.SchemaChecks
import Mathlib.Data.List.Nodup

/-!
# Correlation ids are taken once (`rpc_service.lua`)

`ExpectResponse` waits for the responses to some correlation ids and takes them from the map of the session.
Called with an id it removes that id; called with the name of a function it collects the ids of that function
and removes nothing, since `table.removeKey` builds a new table and its result is dropped. So the ids are
found again by the next call with the same name. A call with an id that is not in the map any more only
prints a message and waits for it as well.
-/

namespace Atf
open Lua

namespace RpcSession
variable {s s' : RpcSession} {env : RpcEnv}

/-- The map knows no id beyond the counter. -/
def Bounded (s : RpcSession) : Prop := ∀ p ∈ s.corIdFuncMap, p.1 ≤ s.correlationId

/-- A request gets the next id, and the map at most one entry more, for that id. -/
theorem sendRPC_spec {func : FunctionRef} {arguments : Value} {fileName : Option String} {encrypt : Bool} {c : Int}
    (hb : s.Bounded) (h : s.sendRPC env func arguments fileName encrypt = .ok (s', c)) :
    c = s.correlationId + 1 ∧ s'.correlationId = c ∧
      ∃ added : Option FunctionRef, s'.corIdFuncMap = s.corIdFuncMap ++ added.toList.map fun func => (c, func) := by
  obtain ⟨binaryData, -, h⟩ := bind_eq_ok.mp h
  cases h
  refine ⟨rfl, ?_⟩
  have hnew : ∀ p ∈ s.corIdFuncMap, p.1 ≠ s.correlationId + 1 := fun p hp => by
    have := hb p hp
    omega
  simp only [checkCorrelationID, send]
  split
  · rename_i fid hget hfid
    exact ⟨rfl, some _, Dict.set_of_forall_ne _ hnew⟩
  · exact ⟨rfl, none, (List.append_nil _).symm⟩

/-- The ids that `ExpectResponse` waits for. -/
def waitsFor (s : RpcSession) (cor_id : CorId) : List Int := (s.lookupResponse cor_id).2.1

/-- The ids among them that it has taken from the map. -/
def takes (s : RpcSession) (cor_id : CorId) : List Int :=
  if (s.lookupResponse cor_id).1.isSome then s.waitsFor cor_id else []

/-- A call that does not raise waits for an id. -/
theorem expectResponse_spec {cor_id : CorId} {args : List Value} {ret : RpcExpectation}
    (h : s.expectResponse env cor_id args = .ok (s', ret)) :
    s' = (s.lookupResponse cor_id).2.2 ∧ s.waitsFor cor_id ≠ [] := by
  obtain ⟨⟨s₁, ret₁⟩, hbase, h⟩ := map_eq_ok.mp h
  cases h
  unfold baseExpectResponse at hbase
  split at hbase
  rename_i func_name ids s₂ hlookup
  rw [waitsFor, hlookup]
  split at hbase
  · cases hbase
  · cases hbase
    exact ⟨rfl, List.cons_ne_nil _ _⟩

theorem lookupResponse_number (c : Int) :
    s.waitsFor (.number c) = [c] ∧
      (s.lookupResponse (.number c)).2.2 = { s with corIdFuncMap := s.corIdFuncMap.filter (·.1 ≠ c) } ∧
      ∀ i ∈ s.takes (.number c), i = c ∧ ∃ func, (c, func) ∈ s.corIdFuncMap := by
  rw [takes, waitsFor]
  cases hget : s.corIdFuncMap.get c with
  | none =>
    have heq : s.lookupResponse (.number c) = (none, [c], s) := by rw [lookupResponse, hget]
    have hself : s.corIdFuncMap.filter (·.1 ≠ c) = s.corIdFuncMap := by
      rw [List.filter_eq_self]
      intro p hp
      have hne := List.lookup_eq_none_iff.mp hget p hp
      exact decide_eq_true fun hpc => absurd hpc.symm (bne_iff_ne.mp hne)
    rw [heq, hself]
    exact ⟨rfl, rfl, nofun⟩
  | some func =>
    have heq : s.lookupResponse (.number c) =
        (some func, [c], { s with corIdFuncMap := s.corIdFuncMap.filter (·.1 ≠ c) }) := by
      rw [lookupResponse, hget]
    rw [heq]
    exact ⟨rfl, rfl, fun i hi => ⟨List.mem_singleton.mp hi, func, Dict.mem_of_get hget⟩⟩

theorem lookupResponse_name (f : String) :
    (∀ i, i ∈ s.waitsFor (.name f) ↔ (i, FunctionRef.name f) ∈ s.corIdFuncMap) ∧
      (s.lookupResponse (.name f)).2.2 = s ∧ s.takes (.name f) = s.waitsFor (.name f) := by
  have hmem : ∀ i, i ∈ (s.corIdFuncMap.filter (·.2 = .name f)).map Prod.fst ↔
      (i, FunctionRef.name f) ∈ s.corIdFuncMap := by
    intro i
    simp [List.mem_map, List.mem_filter]
  rw [takes, waitsFor]
  cases hfound : s.corIdFuncMap.filter (·.2 = .name f) with
  | nil =>
    have heq : s.lookupResponse (.name f) = (none, [], s) := by rw [lookupResponse, hfound]
    rw [hfound] at hmem
    rw [heq]
    exact ⟨hmem, rfl, rfl⟩
  | cons p found =>
    have heq : s.lookupResponse (.name f) = (some (.name f), (p :: found).map Prod.fst, s) := by
      rw [lookupResponse, hfound]
    rw [hfound] at hmem
    rw [heq]
    exact ⟨hmem, rfl, rfl⟩

end RpcSession

/-! ### Runs -/

/-- The session, the ids that a call of `ExpectResponse` has taken and that were not sent since, the names that
were found in the map, and the ids that a call waited for while they were taken. -/
structure IdHistory where
  session : RpcSession
  taken : List Int
  names : List String
  repeated : List Int

namespace IdHistory

def start (session : RpcSession) : IdHistory := ⟨session, [], [], []⟩

def step (env : RpcEnv) (h : IdHistory) : RpcEvent → LuaM IdHistory
  | .sendRPC func arguments fileName encrypt =>
    (h.session.sendRPC env func arguments fileName encrypt).map fun (session, c) =>
      { h with session, taken := h.taken.filter (· ≠ c) }
  | .expectResponse cor_id args =>
    (h.session.expectResponse env cor_id args).map fun (session, _) =>
      { session
        taken := h.taken ++ h.session.takes cor_id
        names := h.names ++ (match cor_id with | .name f => [f] | .number _ => [])
        repeated := h.repeated ++ (h.session.waitsFor cor_id).filter (· ∈ h.taken) }

/-- No name is expected twice, and no id that was taken is given to `ExpectResponse`. -/
def AsksOnce (h : IdHistory) : RpcEvent → Prop
  | .sendRPC _ _ _ _ => True
  | .expectResponse (.number c) _ => c ∉ h.taken
  | .expectResponse (.name f) _ => f ∉ h.names

/-- The ids in the map that are taken are those of the names expected so far, and each such name has one. -/
structure TakenOnce (h : IdHistory) : Prop where
  keys : (h.session.corIdFuncMap.map Prod.fst).Nodup
  bounded : h.session.Bounded
  takenBounded : ∀ c ∈ h.taken, c ≤ h.session.correlationId
  named : ∀ p ∈ h.session.corIdFuncMap, p.1 ∈ h.taken → ∃ f ∈ h.names, p.2 = .name f
  kept : ∀ f ∈ h.names, ∃ c ∈ h.taken, (c, FunctionRef.name f) ∈ h.session.corIdFuncMap
  clean : h.repeated = []

namespace TakenOnce
variable {h h' : IdHistory} {env : RpcEnv}

theorem start {session : RpcSession} (hmap : session.corIdFuncMap = []) : (start session).TakenOnce := by
  refine ⟨?_, ?_, nofun, ?_, nofun, rfl⟩
  · rw [IdHistory.start, hmap]
    exact List.nodup_nil
  · rw [IdHistory.start, RpcSession.Bounded, hmap]
    exact fun _ hp => absurd hp List.not_mem_nil
  · rw [IdHistory.start, hmap]
    exact fun _ hp => absurd hp List.not_mem_nil

theorem sendRPC (hi : h.TakenOnce) {func : FunctionRef} {arguments : Value} {fileName : Option String}
    {encrypt : Bool} {session : RpcSession} {c : Int}
    (hs : h.session.sendRPC env func arguments fileName encrypt = .ok (session, c)) :
    TakenOnce { h with session, taken := h.taken.filter (· ≠ c) } := by
  obtain ⟨hc, hcount, added, hmap⟩ := RpcSession.sendRPC_spec hi.bounded hs
  -- the id is beyond all that were used
  have hsame : h.taken.filter (· ≠ c) = h.taken := by
    rw [List.filter_eq_self]
    intro i hmem
    have := hi.takenBounded i hmem
    simp only [decide_not, Bool.not_eq_true', decide_eq_false_iff_not]
    omega
  have hnew : c ∉ h.taken := fun hmem => by
    have := hi.takenBounded c hmem
    omega
  have hle : ∀ i ≤ h.session.correlationId, i ≤ session.correlationId := fun i hle => by omega
  have hadded : ∀ p ∈ added.toList.map fun func => (c, func), p.1 = c := by
    rintro p hp
    obtain ⟨func, -, rfl⟩ := List.mem_map.mp hp
    rfl
  rw [hsame]
  refine ⟨?_, ?_, fun i hi' => hle i (hi.takenBounded i hi'), ?_, ?_, hi.clean⟩
  · rw [hmap, List.map_append, List.nodup_append]
    refine ⟨hi.keys, ?_, ?_⟩
    · rcases added with _ | func
      · exact List.nodup_nil
      · exact List.nodup_singleton _
    · rintro i hmem _ hlast rfl
      obtain ⟨p, hp, rfl⟩ := List.mem_map.mp hmem
      obtain ⟨q, hq, heq⟩ := List.mem_map.mp hlast
      have := hi.bounded p hp
      have := hadded q hq
      omega
  · rw [RpcSession.Bounded, hmap]
    intro p hp
    rcases List.mem_append.mp hp with hp | hp
    · exact hle _ (hi.bounded p hp)
    · rw [hadded p hp]
      exact Int.le_of_eq hcount.symm
  · rw [hmap]
    intro p hp htaken
    rcases List.mem_append.mp hp with hp | hp
    · exact hi.named p hp htaken
    · rw [hadded p hp] at htaken
      exact absurd htaken hnew
  · rw [hmap]
    intro f hf
    obtain ⟨i, htaken, hmem⟩ := hi.kept f hf
    exact ⟨i, htaken, List.mem_append_left _ hmem⟩

/-- A call with an id that is not taken: the id leaves the map. -/
theorem expectNumber (hi : h.TakenOnce) {c : Int} (hc : c ∉ h.taken) :
    TakenOnce
      { session := (h.session.lookupResponse (.number c)).2.2
        taken := h.taken ++ h.session.takes (.number c), names := h.names ++ []
        repeated := h.repeated ++ (h.session.waitsFor (.number c)).filter (· ∈ h.taken) } := by
  obtain ⟨hwait, hsession, htakes⟩ := h.session.lookupResponse_number c
  rw [hwait, hsession, List.append_nil]
  refine ⟨?_, ?_, fun i hmem => ?_, fun p hp htaken => ?_, fun f hf => ?_, ?_⟩
  · exact hi.keys.sublist (List.filter_sublist.map Prod.fst)
  · exact fun p hp => hi.bounded p (List.mem_of_mem_filter hp)
  · rcases List.mem_append.mp hmem with hmem | hmem
    · exact hi.takenBounded i hmem
    · obtain ⟨rfl, func, hfunc⟩ := htakes i hmem
      exact hi.bounded _ hfunc
  · obtain ⟨hp, hne⟩ := List.mem_filter.mp hp
    rcases List.mem_append.mp htaken with htaken | htaken
    · exact hi.named p hp htaken
    · exact absurd (htakes _ htaken).1 (of_decide_eq_true hne)
  · obtain ⟨i, htaken, hmem⟩ := hi.kept f hf
    refine ⟨i, List.mem_append_left _ htaken, List.mem_filter.mpr ⟨hmem, decide_eq_true ?_⟩⟩
    rintro rfl
    exact hc htaken
  · show h.repeated ++ [c].filter (· ∈ h.taken) = []
    rw [hi.clean, List.nil_append, List.filter_eq_nil_iff]
    intro i hmem htaken
    rw [List.mem_singleton.mp hmem] at htaken
    exact hc (of_decide_eq_true htaken)

/-- A call with a name that was not used before: its ids stay in the map. -/
theorem expectName (hi : h.TakenOnce) {f : String} (hf : f ∉ h.names) (hne : h.session.waitsFor (.name f) ≠ []) :
    TakenOnce
      { session := (h.session.lookupResponse (.name f)).2.2
        taken := h.taken ++ h.session.takes (.name f), names := h.names ++ [f]
        repeated := h.repeated ++ (h.session.waitsFor (.name f)).filter (· ∈ h.taken) } := by
  obtain ⟨hwait, hsession, htakes⟩ := h.session.lookupResponse_name f
  rw [hsession, htakes]
  refine ⟨hi.keys, hi.bounded, fun i hmem => ?_, fun p hp htaken => ?_, fun g hg => ?_, ?_⟩
  · rcases List.mem_append.mp hmem with hmem | hmem
    · exact hi.takenBounded i hmem
    · exact hi.bounded _ ((hwait i).mp hmem)
  · rcases List.mem_append.mp htaken with htaken | htaken
    · obtain ⟨g, hg, hp2⟩ := hi.named p hp htaken
      exact ⟨g, List.mem_append_left _ hg, hp2⟩
    · -- the map has one function for each id
      have hp' := (hwait p.1).mp htaken
      have heq : p = (p.1, .name f) := List.inj_on_of_nodup_map hi.keys hp hp' rfl
      exact ⟨f, List.mem_append_right _ List.mem_cons_self, congrArg Prod.snd heq⟩
  · rcases List.mem_append.mp hg with hg | hg
    · obtain ⟨i, htaken, hmem⟩ := hi.kept g hg
      exact ⟨i, List.mem_append_left _ htaken, hmem⟩
    · rw [List.mem_singleton.mp hg]
      obtain ⟨i, hmem⟩ := List.exists_mem_of_ne_nil _ hne
      exact ⟨i, List.mem_append_right _ hmem, (hwait i).mp hmem⟩
  · show h.repeated ++ (h.session.waitsFor (.name f)).filter (· ∈ h.taken) = []
    rw [hi.clean, List.nil_append, List.filter_eq_nil_iff]
    intro i hmem htaken
    obtain ⟨g, hg, heq⟩ := hi.named _ ((hwait i).mp hmem) (of_decide_eq_true htaken)
    cases heq
    exact hf hg

theorem step (hi : h.TakenOnce) {e : RpcEvent} (hg : h.AsksOnce e) (hs : h.step env e = .ok h') : h'.TakenOnce := by
  rcases e with ⟨func, arguments, fileName, encrypt⟩ | ⟨c | f, args⟩
  · obtain ⟨⟨session, c⟩, hsend, rfl⟩ := map_eq_ok.mp hs
    exact hi.sendRPC hsend
  · obtain ⟨⟨session, ret⟩, hexpect, rfl⟩ := map_eq_ok.mp hs
    obtain ⟨rfl, -⟩ := RpcSession.expectResponse_spec hexpect
    exact hi.expectNumber hg
  · obtain ⟨⟨session, ret⟩, hexpect, rfl⟩ := map_eq_ok.mp hs
    obtain ⟨rfl, hne⟩ := RpcSession.expectResponse_spec hexpect
    exact hi.expectName hg hne

/-- The condition on the call is exact. -/
theorem asksOnce_of_clean (hi : h.TakenOnce) {e : RpcEvent} (hs : h.step env e = .ok h')
    (hclean : h'.repeated = []) : h.AsksOnce e := by
  rcases e with ⟨func, arguments, fileName, encrypt⟩ | ⟨c | f, args⟩
  · trivial
  · intro htaken
    obtain ⟨⟨session, ret⟩, hexpect, rfl⟩ := map_eq_ok.mp hs
    have hnone := (List.append_eq_nil_iff.mp hclean).2
    rw [(h.session.lookupResponse_number c).1, List.filter_eq_nil_iff] at hnone
    exact hnone c List.mem_cons_self (decide_eq_true htaken)
  · intro hname
    obtain ⟨⟨session, ret⟩, hexpect, rfl⟩ := map_eq_ok.mp hs
    have hnone := List.filter_eq_nil_iff.mp (List.append_eq_nil_iff.mp hclean).2
    obtain ⟨i, htaken, hmem⟩ := hi.kept f hname
    exact hnone i (((h.session.lookupResponse_name f).1 i).mpr hmem) (decide_eq_true htaken)

end TakenOnce

variable {h : IdHistory}

/-- In every run in which no name is expected twice and no taken id is given to `ExpectResponse`, no call
waits for an id that an earlier one has taken; and every other call, in such a run, does. -/
theorem id_taken_once (env : RpcEnv) (session : RpcSession) (hmap : session.corIdFuncMap = [])
    (hr : Run.Reaches (step env) AsksOnce (start session) h) :
    h.repeated = [] ∧ ∀ e h', h.step env e = .ok h' → (h'.repeated = [] ↔ h.AsksOnce e) := by
  have hi : h.TakenOnce := hr.invariant (.start hmap) fun _ _ _ hi hg hs => hi.step hg hs
  exact ⟨hi.clean, fun e h' hs => ⟨hi.asksOnce_of_clean hs, fun hg => (hi.step hg hs).clean⟩⟩

/-! ### Examples of runs -/

instance (h : IdHistory) : ∀ e, Decidable (h.AsksOnce e)
  | .sendRPC _ _ _ _ => inferInstanceAs (Decidable True)
  | .expectResponse (.number c) _ => inferInstanceAs (Decidable (c ∉ h.taken))
  | .expectResponse (.name f) _ => inferInstanceAs (Decidable (f ∉ h.names))

open RpcSample in
/-- Two requests, the first expected by name and the second by its id. -/
theorem id_taken_once_sample :
    ∃ h, Run.Reaches (step mobileEnv) AsksOnce (start RpcSample.session) h ∧ h.taken = [1, 2] ∧ h.repeated = [] := by
  have hrun : (Run.exec (step mobileEnv) AsksOnce (start RpcSample.session)
      [.sendRPC (.name "Show") (.table []) none false, .expectResponse (.name "Show") [],
        .sendRPC (.name "Show") (.table []) none false, .expectResponse (.number 2) []]).map IdHistory.taken =
      some [1, 2] := by
    decide +kernel
  obtain ⟨h, hh, htaken⟩ := Option.map_eq_some_iff.mp hrun
  have hr := Run.Reaches.of_exec .start hh
  exact ⟨h, hr, htaken, (id_taken_once mobileEnv RpcSample.session rfl hr).1⟩

open RpcSample in
/-- The same function sent and expected by name twice: the second call waits for the first id again. -/
theorem id_taken_twice :
    (Run.exec (step mobileEnv) (fun _ _ => True) (start RpcSample.session)
      [.sendRPC (.name "Show") (.table []) none false, .expectResponse (.name "Show") [],
        .sendRPC (.name "Show") (.table []) none false, .expectResponse (.name "Show") []]).map
      (fun h => (h.taken, h.repeated)) = some ([1, 1, 2], [1]) := by
  decide +kernel

end IdHistory

end Atf
