import Atf.Protocol
import Atf.Lib.RecordLayer

/-!
# Decrypting with OpenSSL (`security_manager.lua`, `lua_openssl.cc`)

`SessionSecurity.decrypt` is `Security:decrypt`: the data goes to the input BIO, a read of no bytes makes
OpenSSL open a record, and one read takes what is then pending. OpenSSL is an `Endpoint` of the record
layer. Only the open record is pending, so a call returns the first record of its message and leaves the
others to the calls after it: `decryptAll_iff` says that the channel is transparent for messages of one
record, and for no others.
-/

namespace Atf
open Lua RecordLayer

variable {σ π : Type}

def checkDecryptedDataInSSL (ssl : Endpoint σ UInt8) (s : σ) : σ × Nat :=
  let s := (ssl.sslRead s 0).1
  (s, ssl.sslPending s)

def sslDecrypt (ssl : Endpoint σ UInt8) (s : σ) (size : Nat) : LuaM (σ × Bytes) :=
  match ssl.sslRead s size with
  | (s, some data) => .ok (s, data)
  | (_, none) => .error "Error occurred during data decryption with Openssl SSL"

namespace SessionSecurity

/-- `self.ssl` is `nil` until the handshake is prepared. -/
def isHandshakeFinished (ssl : Endpoint σ UInt8) : Option σ → Bool
  | some s => ssl.isInitFinished s
  | none => false

def decrypt (ssl : Endpoint σ UInt8) (self : Option σ) (encryptedData : Option Bytes) :
    LuaM (Option σ × SecurityStatus × Option Bytes) :=
  match self, encryptedData with
  | some s, some encryptedData =>
    if !(isHandshakeFinished ssl self && decide (encryptedData.length > 0)) then .ok (self, .ERROR, none)
    else do
      let (s, pending) := checkDecryptedDataInSSL ssl (ssl.bioWrite s encryptedData)
      if pending == 0 then return (some s, .ERROR, none)
      let (s, data) ← sslDecrypt ssl s pending
      return (some s, .SUCCESS, some data)
  | _, _ => .ok (self, .ERROR, none)

/-- The calls for these frames, one after the other, and what each returned. -/
def decryptAll (ssl : Endpoint σ UInt8) : Option σ → List Bytes →
    LuaM (Option σ × List (SecurityStatus × Option Bytes))
  | self, [] => return (self, [])
  | self, c :: cs => do
    let (self, status, data) ← decrypt ssl self (some c)
    let (self, answers) ← decryptAll ssl self cs
    return (self, (status, data) :: answers)

end SessionSecurity

/-- The ciphertexts of the messages, in the order in which the peer encrypts them. -/
def encryptAll (encrypt : π → List Bytes → π × Bytes) : π → List (RecordLayer.Message UInt8) → List Bytes
  | _, [] => []
  | p, m :: ms => (encrypt p m.records).2 :: encryptAll encrypt (encrypt p m.records).1 ms

namespace SessionSecurity
variable {ssl : Endpoint σ UInt8} {encrypt : π → List Bytes → π × Bytes} (link : Link ssl encrypt)

/-- All that has been given to the endpoint has been read. -/
structure Drained (s : σ) (p : π) : Prop where
  finished : ssl.isInitFinished s = true
  synced : link.synced s p
  view : link.view s = ⟨[], []⟩

/-- A call returns the first record of its message, and leaves the others unread. -/
theorem decrypt_first {s : σ} {p : π} (h : Drained link s p) (m : RecordLayer.Message UInt8) {r : Bytes}
    {rest : List Bytes}
    (hm : m.records = r :: rest) (hr : r ≠ []) :
    ∃ s', decrypt ssl (some s) (some (encrypt p m.records).2) = .ok (some s', .SUCCESS, some r) ∧
      ssl.isInitFinished s' = true ∧ link.synced s' (encrypt p m.records).1 ∧ link.view s' = ⟨[], rest⟩ := by
  obtain ⟨hfin, hsync, hview⟩ := h
  have hview₁ : link.view (ssl.bioWrite s (encrypt p m.records).2) = ⟨[], r :: rest⟩ := by
    rw [link.write_view m hsync, hview, hm]
    rfl
  -- the read of no bytes opens the first record
  have hview₂ : link.view (ssl.sslRead (ssl.bioWrite s (encrypt p m.records).2) 0).1 = ⟨r, rest⟩ := by
    rw [link.read_view, hview₁, Reader.read_zero]
    rfl
  have hpend : ssl.sslPending (ssl.sslRead (ssl.bioWrite s (encrypt p m.records).2) 0).1 = r.length := by
    rw [link.pending, hview₂]
  have hread := Reader.read_current hr rest
  rw [← hview₂] at hread
  have hview₃ := (link.read_view _ r.length).trans (congrArg Prod.fst hread)
  have hdata := (link.read_data _ r.length).trans (congrArg Prod.snd hread)
  generalize hs₂ : (ssl.sslRead (ssl.bioWrite s (encrypt p m.records).2) 0).1 = s₂ at *
  have hfin₂ : ssl.isInitFinished s₂ = true := by
    rw [← hs₂, link.finished_read, link.finished_write, hfin]
  have hsync₂ : link.synced s₂ (encrypt p m.records).1 :=
    hs₂ ▸ link.read_synced 0 (link.write_synced m hsync)
  refine ⟨(ssl.sslRead s₂ r.length).1, ?_, ?_, link.read_synced _ hsync₂, hview₃⟩
  · have hlen : 0 < (encrypt p m.records).2.length := List.length_pos_iff.mpr (link.encrypt_ne p m)
    have hdec : sslDecrypt ssl s₂ r.length = .ok ((ssl.sslRead s₂ r.length).1, r) := by
      unfold sslDecrypt
      rcases hx : ssl.sslRead s₂ r.length with ⟨s₃, data⟩
      rw [hx] at hdata
      simp only at hdata
      rw [hdata]
    have hr0 : (r.length == 0) = false := by simp [hr]
    simp only [decrypt, isHandshakeFinished, hfin, hlen, checkDecryptedDataInSSL, hs₂, hpend, hr0, hdec,
      bind, Except.bind, pure, Except.pure, decide_true, Bool.and_self, Bool.not_true, Bool.false_eq_true,
      if_false]
  · rw [link.finished_read, hfin₂]

/-- Every call returned the whole message. -/
def Transparent (ssl : Endpoint σ UInt8) (encrypt : π → List Bytes → π × Bytes) (s : σ) (p : π)
    (ms : List (RecordLayer.Message UInt8)) : Prop :=
  ∃ s', decryptAll ssl (some s) (encryptAll encrypt p ms) = .ok (s', ms.map fun m => (.SUCCESS, some m.plain))

omit link in
theorem transparent_cons_iff {s s₁ : σ} {p : π} {m : RecordLayer.Message UInt8} {r : Bytes}
    (h : decrypt ssl (some s) (some (encrypt p m.records).2) = .ok (some s₁, .SUCCESS, some r))
    (ms : List (RecordLayer.Message UInt8)) :
    Transparent ssl encrypt s p (m :: ms) ↔
      m.plain = r ∧ Transparent ssl encrypt s₁ (encrypt p m.records).1 ms := by
  have hall : decryptAll ssl (some s) (encryptAll encrypt p (m :: ms)) =
      (decryptAll ssl (some s₁) (encryptAll encrypt (encrypt p m.records).1 ms)).map fun x =>
        (x.1, (.SUCCESS, some r) :: x.2) := by
    simp only [encryptAll, decryptAll, h, bind, Except.bind]
    cases decryptAll ssl (some s₁) (encryptAll encrypt (encrypt p m.records).1 ms) <;> rfl
  unfold Transparent
  simp only [hall, map_eq_ok, List.map_cons]
  constructor
  · rintro ⟨s', ⟨self, answers⟩, hrest, heq⟩
    simp only [Prod.mk.injEq, List.cons.injEq, Option.some.injEq, true_and] at heq
    obtain ⟨rfl, hr, rfl⟩ := heq
    exact ⟨hr.symm, self, hrest⟩
  · rintro ⟨rfl, s', hrest⟩
    exact ⟨s', _, hrest, rfl⟩

theorem decryptAll_iff {s : σ} {p : π} (h : Drained link s p) (ms : List (RecordLayer.Message UInt8)) :
    Transparent ssl encrypt s p ms ↔ ∀ m ∈ ms, m.records.length = 1 := by
  induction ms generalizing s p with
  | nil =>
    simp only [List.not_mem_nil, false_implies, implies_true, iff_true]
    exact ⟨some s, rfl⟩
  | cons m ms ih =>
    obtain ⟨r, rest, hm, hr, hplain⟩ := m.records_eq
    obtain ⟨s₁, hdec, hfin, hsync, hview⟩ := decrypt_first link h m hm hr
    have hone : m.records.length = 1 ↔ rest = [] := by rw [hm]; simp
    rw [transparent_cons_iff hdec, hplain, List.forall_mem_cons, hone]
    constructor
    · rintro ⟨rfl, hrest⟩
      exact ⟨rfl, (ih ⟨hfin, hsync, hview⟩).mp hrest⟩
    · rintro ⟨rfl, hrest⟩
      exact ⟨rfl, (ih ⟨hfin, hsync, hview⟩).mpr hrest⟩

/-- The channel is transparent exactly for messages of one record, so for none longer than a record. -/
theorem transparent_iff {s : σ} {p : π} (h : Drained link s p) (ms : List (RecordLayer.Message UInt8)) :
    (Transparent ssl encrypt s p ms ↔ ∀ m ∈ ms, m.records.length = 1) ∧
      ∀ m ∈ ms, MAX_FRAGMENT < m.plain.length → ¬ Transparent ssl encrypt s p ms := by
  refine ⟨decryptAll_iff link h ms, fun m hm hlen ht => ?_⟩
  have hle := RecordLayer.Message.length_le_of_single ((decryptAll_iff link h ms).mp ht m hm)
  omega

end SessionSecurity

/-! ### A message in two records -/

namespace TwoRecords

/-- One byte more than a record carries. -/
def long : RecordLayer.Message UInt8 where
  plain := List.replicate (MAX_FRAGMENT + 1) 7
  records := [List.replicate MAX_FRAGMENT 7, [7]]
  flatten := by simp [List.replicate_succ']
  plain_ne := List.cons_ne_nil _ _
  record_ne := by
    intro r hr
    rcases List.mem_cons.mp hr with rfl | hr
    · exact List.cons_ne_nil _ (List.replicate 16383 7)
    · rw [List.mem_singleton.mp hr]
      exact List.cons_ne_nil _ _
  record_le := by
    intro r hr
    rcases List.mem_cons.mp hr with rfl | hr
    · exact (List.length_replicate ..).le
    · rw [List.mem_singleton.mp hr]
      exact (by decide : 1 ≤ 16384)

def short : RecordLayer.Message UInt8 where
  plain := [1, 2, 3]
  records := [[1, 2, 3]]
  flatten := rfl
  plain_ne := by simp
  record_ne := by simp
  record_le := by simp [MAX_FRAGMENT]

theorem drained : SessionSecurity.Drained RecordLayer.clear ⟨[], []⟩ () := ⟨rfl, rfl, rfl⟩

end TwoRecords

/-- The call returns the first record of a message of two, as if it were all of it. -/
theorem long_message_cut :
    (∃ s', SessionSecurity.decrypt Clear.endpoint (some ⟨[], []⟩)
      (some (Clear.encrypt () TwoRecords.long.records).2) =
        .ok (some s', .SUCCESS, some (List.replicate MAX_FRAGMENT 7))) ∧
      ¬ SessionSecurity.Transparent Clear.endpoint Clear.encrypt ⟨[], []⟩ () [TwoRecords.long] := by
  refine ⟨?_, fun h => ?_⟩
  · have hrecords : TwoRecords.long.records = List.replicate MAX_FRAGMENT 7 :: [[7]] := rfl
    obtain ⟨s', hdec, -⟩ := SessionSecurity.decrypt_first RecordLayer.clear TwoRecords.drained TwoRecords.long
      hrecords (TwoRecords.long.record_ne _ (List.mem_cons_self ..))
    exact ⟨s', hdec⟩
  · have hone := (SessionSecurity.decryptAll_iff RecordLayer.clear TwoRecords.drained _).mp h
      TwoRecords.long (List.mem_singleton.mpr rfl)
    exact absurd hone (by decide : ¬ 2 = 1)

theorem short_messages_transparent :
    SessionSecurity.Transparent Clear.endpoint Clear.encrypt ⟨[], []⟩ () [TwoRecords.short, TwoRecords.short] := by
  refine (SessionSecurity.transparent_iff RecordLayer.clear TwoRecords.drained
    [TwoRecords.short, TwoRecords.short]).1.mpr ?_
  intro m hm
  simp only [List.mem_cons, List.not_mem_nil, or_false, or_self] at hm
  rw [hm]
  rfl

end Atf
