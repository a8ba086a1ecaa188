import Atf.Lib.Splitter

/-!
# Reading from a record layer

A record layer carries a message in one or more records of at most `MAX_FRAGMENT` symbols. The receiving
end keeps the records it has been given, opens them one at a time, and hands out the symbols of the record
that is open: a read opens at most one record, and only the symbols of the open record are counted as
pending. `Reader` is this behaviour; `Link` says that an implementation of the receiving end, whose state
is of any type, shows it for what one sender has sealed. `clear` is such an implementation, without a
cipher.
-/

namespace RecordLayer
variable {α : Type}

def MAX_FRAGMENT : Nat := 16384

/-! ### Readers -/

/-- The symbols of the open record that have not been read, and the records behind it. -/
structure Reader (α : Type) where
  current : List α
  queued : List (List α)

namespace Reader

def load (r : Reader α) : Reader α :=
  match r.current, r.queued with
  | [], record :: queued => ⟨record, queued⟩
  | _, _ => r

/-- Up to `n` symbols of the open record; `none` if that is no symbol at all. -/
def read (r : Reader α) (n : Nat) : Reader α × Option (List α) :=
  let r := r.load
  match r.current.take n with
  | [] => (r, none)
  | data => ({ r with current := r.current.drop n }, some data)

def feed (r : Reader α) (records : List (List α)) : Reader α := { r with queued := r.queued ++ records }

theorem read_zero (r : Reader α) : r.read 0 = (r.load, none) := by simp [read]

/-- A read of the length of the open record reads it whole. -/
theorem read_current {record : List α} (h : record ≠ []) (queued : List (List α)) :
    (⟨record, queued⟩ : Reader α).read record.length = (⟨[], queued⟩, some record) := by
  have hload : (⟨record, queued⟩ : Reader α).load = ⟨record, queued⟩ := by
    cases record with
    | nil => exact absurd rfl h
    | cons a record => rfl
  simp only [read, hload, List.take_length, List.drop_length]

end Reader

/-! ### Messages -/

/-- A message, and the records it is sent in. -/
structure Message (α : Type) where
  plain : List α
  records : List (List α)
  flatten : records.flatten = plain
  plain_ne : plain ≠ []
  record_ne : ∀ r ∈ records, r ≠ []
  record_le : ∀ r ∈ records, r.length ≤ MAX_FRAGMENT

namespace Message

theorem records_eq (m : Message α) :
    ∃ r rest, m.records = r :: rest ∧ r ≠ [] ∧ (m.plain = r ↔ rest = []) := by
  cases h : m.records with
  | nil =>
    have hp := m.flatten
    rw [h] at hp
    exact absurd hp.symm m.plain_ne
  | cons r rest =>
    refine ⟨r, rest, rfl, m.record_ne r (by simp [h]), ?_⟩
    have hp : m.plain = r ++ rest.flatten := by rw [← m.flatten, h, List.flatten_cons]
    rw [hp]
    constructor
    · intro he
      have hflat : rest.flatten = [] := List.self_eq_append_right.mp he.symm
      cases rest with
      | nil => rfl
      | cons r' rest =>
        rw [List.flatten_cons, List.append_eq_nil_iff] at hflat
        exact absurd hflat.1 (m.record_ne r' (by simp [h]))
    · rintro rfl
      simp

/-- A message longer than a record takes several. -/
theorem length_le_of_single {m : Message α} (h : m.records.length = 1) : m.plain.length ≤ MAX_FRAGMENT := by
  obtain ⟨r, hr⟩ := List.length_eq_one_iff.mp h
  have hp := m.flatten
  rw [hr, List.flatten_singleton] at hp
  rw [← hp]
  exact m.record_le r (by simp [hr])

end Message

/-! ### Implementations -/

/-- What a program uses of the receiving end. -/
structure Endpoint (σ α : Type) where
  isInitFinished : σ → Bool
  bioWrite : σ → List α → σ
  sslRead : σ → Nat → σ × Option (List α)
  sslPending : σ → Nat

/-- The endpoint reads what the sender encrypts. -/
structure Link {σ π : Type} (ssl : Endpoint σ α) (encrypt : π → List (List α) → π × List α) where
  view : σ → Reader α
  synced : σ → π → Prop
  finished_write : ∀ s c, ssl.isInitFinished (ssl.bioWrite s c) = ssl.isInitFinished s
  finished_read : ∀ s n, ssl.isInitFinished (ssl.sslRead s n).1 = ssl.isInitFinished s
  pending : ∀ s, ssl.sslPending s = (view s).current.length
  read_view : ∀ s n, view (ssl.sslRead s n).1 = ((view s).read n).1
  read_data : ∀ s n, (ssl.sslRead s n).2 = ((view s).read n).2
  read_synced : ∀ {s p} n, synced s p → synced (ssl.sslRead s n).1 p
  encrypt_ne : ∀ p (m : Message α), (encrypt p m.records).2 ≠ []
  write_view : ∀ {s p} (m : Message α), synced s p →
    view (ssl.bioWrite s (encrypt p m.records).2) = (view s).feed m.records
  write_synced : ∀ {s p} (m : Message α), synced s p →
    synced (ssl.bioWrite s (encrypt p m.records).2) (encrypt p m.records).1

/-! ### Records in the clear -/

namespace Clear

/-- A record is its length in two bytes, and its symbols. -/
def next : List UInt8 → Option (List UInt8 × List UInt8)
  | hi :: lo :: rest =>
    let n := hi.toNat * 256 + lo.toNat
    if rest.length < n then none else some (rest.take n, rest.drop n)
  | _ => none

theorem next_eq_some {b f r : List UInt8} (h : next b = some (f, r)) : ∃ hi lo rest, b = hi :: lo :: rest ∧
    hi.toNat * 256 + lo.toNat ≤ rest.length ∧ f = rest.take (hi.toNat * 256 + lo.toNat) ∧
      r = rest.drop (hi.toNat * 256 + lo.toNat) := by
  unfold next at h
  split at h
  · dsimp only at h
    split at h
    · cases h
    · rename_i hi lo rest hlen
      cases h
      exact ⟨hi, lo, rest, rfl, Nat.le_of_not_lt hlen, rfl, rfl⟩
  · cases h

def splitter : Splitter UInt8 (List UInt8) where
  next := next
  next_length := by
    intro b f r h
    obtain ⟨hi, lo, rest, rfl, -, -, rfl⟩ := next_eq_some h
    simp only [List.length_drop, List.length_cons]
    omega
  next_append := by
    intro b f r x h
    obtain ⟨hi, lo, rest, rfl, hlen, rfl, rfl⟩ := next_eq_some h
    simp only [next, List.cons_append]
    rw [if_neg (by simp only [List.length_append]; omega), List.take_append_of_le_length hlen,
      List.drop_append_of_le_length hlen]

def record (r : List UInt8) : List UInt8 := UInt8.ofNat (r.length / 256) :: UInt8.ofNat r.length :: r

theorem next_record {r : List UInt8} (h : r.length ≤ MAX_FRAGMENT) (x : List UInt8) :
    next (record r ++ x) = some (r, x) := by
  unfold MAX_FRAGMENT at h
  have hn : (UInt8.ofNat (r.length / 256)).toNat * 256 + (UInt8.ofNat r.length).toNat = r.length := by
    rw [UInt8.toNat_ofNat', UInt8.toNat_ofNat']
    omega
  simp only [record, next, List.cons_append, hn]
  rw [if_neg (by simp), List.take_left, List.drop_left]

theorem split_records {rs : List (List UInt8)} (h : ∀ r ∈ rs, r.length ≤ MAX_FRAGMENT) :
    splitter.split (rs.map record).flatten = (rs, []) := by
  induction rs with
  | nil => exact splitter.split_of_next_none rfl
  | cons r rs ih =>
    have hn : splitter.next (record r ++ (rs.map record).flatten) = some (r, _) :=
      next_record (h r (by simp)) _
    rw [List.map_cons, List.flatten_cons, splitter.split_of_next_some hn, ih fun q hq => h q (by simp [hq])]

/-- The open record, and the bytes that have come in behind it. -/
structure State where
  current : List UInt8
  bioIn : List UInt8

def State.load (s : State) : State :=
  match s.current, next s.bioIn with
  | [], some (r, rest) => ⟨r, rest⟩
  | _, _ => s

def endpoint : Endpoint State UInt8 where
  isInitFinished _ := true
  bioWrite s c := { s with bioIn := s.bioIn ++ c }
  sslRead s n :=
    let s := s.load
    match s.current.take n with
    | [] => (s, none)
    | data => ({ s with current := s.current.drop n }, some data)
  sslPending s := s.current.length

def encrypt (_ : Unit) (rs : List (List UInt8)) : Unit × List UInt8 := ((), (rs.map record).flatten)

def view (s : State) : Reader UInt8 := ⟨s.current, (splitter.split s.bioIn).1⟩

theorem view_load (s : State) : view s.load = (view s).load := by
  obtain ⟨current, bioIn⟩ := s
  cases current with
  | cons a current => rfl
  | nil =>
    cases hn : next bioIn with
    | none =>
      have hs : splitter.split bioIn = ([], bioIn) := splitter.split_of_next_none hn
      simp [State.load, hn, view, Reader.load, hs]
    | some fr =>
      obtain ⟨r, rest⟩ := fr
      have hs := splitter.split_of_next_some hn
      simp [State.load, hn, view, Reader.load, hs]

theorem load_rest (s : State) (h : (splitter.split s.bioIn).2 = []) : (splitter.split s.load.bioIn).2 = [] := by
  obtain ⟨current, bioIn⟩ := s
  cases current with
  | cons a current => exact h
  | nil =>
    cases hn : next bioIn with
    | none => simpa [State.load, hn] using h
    | some fr =>
      obtain ⟨r, rest⟩ := fr
      have hs := splitter.split_of_next_some hn
      simp only [hs] at h
      simpa [State.load, hn] using h

end Clear

open Clear in
def clear : Link Clear.endpoint Clear.encrypt where
  view := view
  synced s _ := (splitter.split s.bioIn).2 = []
  finished_write _ _ := rfl
  finished_read _ _ := rfl
  pending _ := rfl
  read_view s n := by
    simp only [endpoint, Reader.read, ← view_load]
    cases h : s.load.current.take n with
    | nil => simp [view, h]
    | cons a data => simp [view, h]
  read_data s n := by
    simp only [endpoint, Reader.read, ← view_load]
    cases h : s.load.current.take n with
    | nil => simp [view, h]
    | cons a data => simp [view, h]
  read_synced {s _} n h := by
    have hl := load_rest s h
    simp only [endpoint]
    cases s.load.current.take n <;> exact hl
  encrypt_ne _ m := by
    obtain ⟨r, rest, hr, -⟩ := m.records_eq
    simp [encrypt, hr, record]
  write_view {s _} m h := by
    simp only [endpoint, encrypt, view, splitter.split_append, h, List.nil_append,
      split_records m.record_le, Reader.feed]
  write_synced {s _} m h := by
    simp only [endpoint, encrypt, splitter.split_append, h, List.nil_append, split_records m.record_le]

end RecordLayer
