import NodeCqrs.EventLockers
import NodeCqrs.Proofs.SqliteEventLocker
import NodeCqrs.Proofs.SqliteGuid

/-!
# Where the event lockers agree

A row, a document and a key stand for the same lock (`SameLock`), and each call keeps it so and has
the same outcome on all three, unless it marks an event whose lock has run out: Redis has let go of
the lock by then and throws, the other two mark the event. Nor does Redis keep a lock for no time
at all. So the outcomes are the same if and only if no call is of these (`outcomes_agree_iff`).
-/

namespace NodeCqrs

/-! ## One lock under one call -/

namespace SqliteEventLocker

variable {K E : Type} [DecidableEq K]

theorem tryMarkAsProjecting_eq (ttl now : ℤ) (s : SqliteEventLocker K E) (k : K) :
    s.tryMarkAsProjecting ttl now k =
      if ∀ r ∈ s.eventLock k, r.processedAt = none ∧ r.processingAt ≤ now - ttl then
        (s.setEventLock k { processingAt := now, processedAt := none }, true)
      else (s, false) := by
  unfold tryMarkAsProjecting
  rcases hr : s.eventLock k with _ | ⟨t, p⟩
  · simp
  · by_cases hp : p = none
    · simp [hp]
    · simp [hp]

theorem markAsProjected_eq (now : ℤ) (s : SqliteEventLocker K E) (k : K) :
    s.markAsProjected now k = (s.eventLock k).bind fun r =>
      if r.processedAt = none then some (s.setEventLock k { r with processedAt := some now })
      else none := by
  unfold markAsProjected
  rcases s.eventLock k with _ | r <;> rfl

end SqliteEventLocker

namespace MongoEventLocker

theorem eventLocks_set (s : MongoEventLocker) (id id' : String) (doc : Option EventLockDocument) :
    (s.set id doc).eventLocks id' = if id' = id then doc else s.eventLocks id' := by
  by_cases h : id' = id <;> simp [set, h]

end MongoEventLocker

namespace RedisEventLocker

theorem eventLocks_set (s : RedisEventLocker) (id id' : String)
    (key : Option (RedisKey EventLockValue)) :
    (s.set id key).eventLocks id' = if id' = id then key else s.eventLocks id' := by
  by_cases h : id' = id <;> simp [set, h]

end RedisEventLocker

/-- A row, a document and a key of one event. The key of a lock that has run out is kept here,
though nothing finds it. -/
inductive SameLock (ttl : ℕ) :
    Option EventLockRow → Option EventLockDocument → Option (RedisKey EventLockValue) → Prop
  | free : SameLock ttl none none none
  | processing (t : ℤ) : 0 < ttl →
      SameLock ttl (some ⟨t, none⟩) (some ⟨some t, none⟩) (some ⟨.processing, some (t + ttl)⟩)
  | processed (t : ℤ) (t' : Option ℤ) (p p' : ℤ) : 0 < ttl →
      SameLock ttl (some ⟨t, some p⟩) (some ⟨t', some p'⟩) (some ⟨.processed, none⟩)

/-- The three lockers have the same locks. -/
def SameLocks {E : Type} (ttl : ℕ) (s : SqliteEventLocker (List ℕ) E) (m : MongoEventLocker)
    (r : RedisEventLocker) : Prop :=
  ∀ id, CanonicalId id → SameLock ttl (s.eventLock (guid id)) (m.eventLocks id) (r.eventLocks id)

/-- A call is made in time: the lock it takes is to last, the one it finalizes has not run out. -/
def InTime {E : Type} (ttl : ℕ) (now : ℤ) (s : SqliteEventLocker (List ℕ) E) :
    EventLockerCall → Prop
  | .tryMarkAsProjecting _ => 0 < ttl
  | .markAsProjected event => ∀ r ∈ s.eventLock (guid event), r.processedAt = none →
      now ≤ r.processingAt + ttl

/-- The call is not made exactly one TTL after the event was last locked. -/
def NotAtExpiry {E : Type} (ttl : ℕ) (now : ℤ) (s : SqliteEventLocker (List ℕ) E)
    (c : EventLockerCall) : Prop :=
  ∀ r ∈ s.eventLock (guid c.event), now ≠ r.processingAt + ttl

/-- What holds of the locker's state at each call of a sequence. -/
def AtEach {E : Type} (ttl : ℕ)
    (P : ℤ → SqliteEventLocker (List ℕ) E → EventLockerCall → Prop) :
    SqliteEventLocker (List ℕ) E → List (ℤ × EventLockerCall) → Prop
  | _, [] => True
  | s, (now, c) :: calls => P now s c ∧ AtEach ttl P (s.call ttl now c).1 calls

instance {E : Type} (ttl : ℕ) (now : ℤ) (s : SqliteEventLocker (List ℕ) E) :
    ∀ c, Decidable (InTime ttl now s c)
  | .tryMarkAsProjecting _ => inferInstanceAs (Decidable (0 < ttl))
  | .markAsProjected event => inferInstanceAs (Decidable (∀ r ∈ s.eventLock (guid event),
      r.processedAt = none → now ≤ r.processingAt + ttl))

instance {E : Type} (ttl : ℕ) (now : ℤ) (s : SqliteEventLocker (List ℕ) E) (c : EventLockerCall) :
    Decidable (NotAtExpiry ttl now s c) :=
  inferInstanceAs (Decidable (∀ r ∈ s.eventLock (guid c.event), now ≠ r.processingAt + ttl))

instance AtEach.decidable {E : Type} {ttl : ℕ}
    {P : ℤ → SqliteEventLocker (List ℕ) E → EventLockerCall → Prop}
    [∀ now s c, Decidable (P now s c)] : ∀ s calls, Decidable (AtEach ttl P s calls)
  | _, [] => inferInstanceAs (Decidable True)
  | s, (now, c) :: calls =>
    have : Decidable (AtEach ttl P (s.call ttl now c).1 calls) := decidable _ calls
    inferInstanceAs (Decidable (P now s c ∧ AtEach ttl P (s.call ttl now c).1 calls))

variable {E : Type} {ttl : ℕ} {now : ℤ} {s : SqliteEventLocker (List ℕ) E} {m : MongoEventLocker}
  {r : RedisEventLocker}

theorem SameLocks.set (h : SameLocks ttl s m r) {id : String} (hid : CanonicalId id)
    {row : EventLockRow} {doc : Option EventLockDocument} {key : Option (RedisKey EventLockValue)}
    (hl : SameLock ttl (some row) doc key) :
    SameLocks ttl (s.setEventLock (guid id) row) (m.set id doc) (r.set id key) := by
  intro id' hid'
  rw [SqliteEventLocker.eventLock_setEventLock, MongoEventLocker.eventLocks_set,
    RedisEventLocker.eventLocks_set]
  by_cases he : id' = id
  · simpa [he] using hl
  · have hg : guid id' ≠ guid id := fun hg => he (hid'.guid_inj hid hg)
    simpa [he, hg] using h id' hid'

/-- A locker that is set to what it has is the same. -/
theorem MongoEventLocker.set_same (m : MongoEventLocker) (id : String) :
    m.set id (m.eventLocks id) = m := by
  simp [MongoEventLocker.set]

theorem RedisEventLocker.set_same (r : RedisEventLocker) (id : String) :
    r.set id (r.eventLocks id) = r := by
  simp [RedisEventLocker.set]

/-! ## One call on the three -/

/-- The call has the same outcome on all three, and leaves them with the same locks. -/
structure Agrees (ttl : ℕ) (now : ℤ) (s : SqliteEventLocker (List ℕ) E) (m : MongoEventLocker)
    (r : RedisEventLocker) (c : EventLockerCall) : Prop where
  mongo : (m.call ttl now c).2 = (s.call ttl now c).2
  redis : (r.call ttl now c).2 = (s.call ttl now c).2
  same : SameLocks ttl (s.call ttl now c).1 (m.call ttl now c).1 (r.call ttl now c).1

theorem Agrees.of_call {s' : SqliteEventLocker (List ℕ) E} {m' : MongoEventLocker}
    {r' : RedisEventLocker} {c : EventLockerCall} (outcome : EventLockerOutcome)
    (hs : s.call ttl now c = (s', outcome)) (hm : m.call ttl now c = (m', outcome))
    (hr : r.call ttl now c = (r', outcome)) (h : SameLocks ttl s' m' r') :
    Agrees ttl now s m r c := by
  constructor
  · rw [hs, hm]
  · rw [hs, hr]
  · rw [hs, hm, hr]
    exact h

theorem agrees_tryMarkAsProjecting (h : SameLocks ttl s m r) {event : String}
    (hid : CanonicalId event) (hexp : NotAtExpiry ttl now s (.tryMarkAsProjecting event))
    (httl : 0 < ttl) : Agrees ttl now s m r (.tryMarkAsProjecting event) := by
  have hl := h event hid
  have hnew := h.set hid (.processing now httl)
  have hne : ttl ≠ 0 := by omega
  unfold NotAtExpiry EventLockerCall.event at hexp
  generalize hrow : s.eventLock (guid event) = row at hl hexp
  generalize hdoc : m.eventLocks event = doc at hl
  generalize hkey : r.eventLocks event = key at hl
  cases hl with
  | free =>
    refine .of_call (.returned true) ?_ ?_ ?_ hnew
    · simp [SqliteEventLocker.call, SqliteEventLocker.tryMarkAsProjecting_eq, hrow]
    · simp [MongoEventLocker.call, MongoEventLocker.tryMarkAsProjecting, hdoc,
        MongoEventLocker.updateOne, MongoEventLocker.insertOne]
    · simp [RedisEventLocker.call, RedisEventLocker.tryMarkAsProjecting, hkey,
        RedisEventLocker.SCRIPT_TRY_LOCK, RedisKey.get, RedisKey.setPX, hne, Except.map]
  | processing t =>
    have hexp : now ≠ t + ttl := by simpa using hexp
    by_cases hold : t + ttl < now
    · have h1 : t ≤ now - ttl := by omega
      have h2 : t < now - ttl := by omega
      have h3 : ¬ now ≤ t + ttl := by omega
      have h4 : now ≠ t := by omega
      refine .of_call (.returned true) ?_ ?_ ?_ hnew
      · simp [SqliteEventLocker.call, SqliteEventLocker.tryMarkAsProjecting_eq, hrow, h1]
      · simp [MongoEventLocker.call, MongoEventLocker.tryMarkAsProjecting, hdoc,
          MongoEventLocker.updateOne, h2, h4]
      · simp [RedisEventLocker.call, RedisEventLocker.tryMarkAsProjecting, hkey,
          RedisEventLocker.SCRIPT_TRY_LOCK, RedisKey.get, RedisKey.setPX, hne, Except.map, h3]
    · have h1 : ¬ t ≤ now - ttl := by omega
      have h2 : ¬ t < now - ttl := by omega
      have h3 : now ≤ t + ttl := by omega
      refine .of_call (.returned false) ?_ ?_ ?_ h
      · simp [SqliteEventLocker.call, SqliteEventLocker.tryMarkAsProjecting_eq, hrow, h1]
      · simp [MongoEventLocker.call, MongoEventLocker.tryMarkAsProjecting, hdoc,
          MongoEventLocker.updateOne, MongoEventLocker.insertOne, h2]
        rw [← hdoc, m.set_same]
      · simp [RedisEventLocker.call, RedisEventLocker.tryMarkAsProjecting, hkey,
          RedisEventLocker.SCRIPT_TRY_LOCK, RedisKey.get, Except.map, h3]
        rw [← hkey, r.set_same]
  | processed t t' p p' =>
    refine .of_call (.returned false) ?_ ?_ ?_ h
    · simp [SqliteEventLocker.call, SqliteEventLocker.tryMarkAsProjecting_eq, hrow]
    · simp [MongoEventLocker.call, MongoEventLocker.tryMarkAsProjecting, hdoc,
        MongoEventLocker.updateOne, MongoEventLocker.insertOne]
      rw [← hdoc, m.set_same]
    · simp [RedisEventLocker.call, RedisEventLocker.tryMarkAsProjecting, hkey,
        RedisEventLocker.SCRIPT_TRY_LOCK, RedisKey.get, Except.map]
      rw [← hkey, r.set_same]

theorem agrees_markAsProjected (h : SameLocks ttl s m r) {event : String}
    (hid : CanonicalId event) (hin : InTime ttl now s (.markAsProjected event)) :
    Agrees ttl now s m r (.markAsProjected event) := by
  have hl := h event hid
  change ∀ row ∈ s.eventLock (guid event), row.processedAt = none →
    now ≤ row.processingAt + ttl at hin
  generalize hrow : s.eventLock (guid event) = row at hl hin
  generalize hdoc : m.eventLocks event = doc at hl
  generalize hkey : r.eventLocks event = key at hl
  cases hl with
  | free =>
    refine .of_call (notMarked event) ?_ ?_ ?_ h
    · simp [SqliteEventLocker.call, SqliteEventLocker.markAsProjected_eq, hrow]
    · simp [MongoEventLocker.call, MongoEventLocker.markAsProjected, hdoc,
        MongoEventLocker.findOneAndUpdate]
    · simp [RedisEventLocker.call, RedisEventLocker.markAsProjected, hkey,
        RedisEventLocker.SCRIPT_FINALIZE_LOCK, RedisKey.get]
  | processing t httl =>
    have hin : now ≤ t + ttl := by simpa using hin
    refine .of_call .resolved ?_ ?_ ?_ (h.set hid (.processed t t now now httl))
    · simp [SqliteEventLocker.call, SqliteEventLocker.markAsProjected_eq, hrow]
    · simp [MongoEventLocker.call, MongoEventLocker.markAsProjected, hdoc,
        MongoEventLocker.findOneAndUpdate]
    · simp [RedisEventLocker.call, RedisEventLocker.markAsProjected, hkey,
        RedisEventLocker.SCRIPT_FINALIZE_LOCK, RedisKey.get, hin]
  | processed t t' p p' =>
    refine .of_call (notMarked event) ?_ ?_ ?_ h
    · simp [SqliteEventLocker.call, SqliteEventLocker.markAsProjected_eq, hrow]
    · simp [MongoEventLocker.call, MongoEventLocker.markAsProjected, hdoc,
        MongoEventLocker.findOneAndUpdate]
    · simp [RedisEventLocker.call, RedisEventLocker.markAsProjected, hkey,
        RedisEventLocker.SCRIPT_FINALIZE_LOCK, RedisKey.get]

theorem agrees_of_inTime (h : SameLocks ttl s m r) {c : EventLockerCall}
    (hid : CanonicalId c.event) (hexp : NotAtExpiry ttl now s c) (hin : InTime ttl now s c) :
    Agrees ttl now s m r c := by
  cases c with
  | tryMarkAsProjecting event => exact agrees_tryMarkAsProjecting h hid hexp hin
  | markAsProjected event => exact agrees_markAsProjected h hid hin

/-- A call that is not made in time is refused by Redis and not by SQLite. -/
theorem inTime_of_redis (h : SameLocks ttl s m r) {c : EventLockerCall}
    (hid : CanonicalId c.event) (hredis : (r.call ttl now c).2 = (s.call ttl now c).2) :
    InTime ttl now s c := by
  have hl := h c.event hid
  generalize hrow : s.eventLock (guid c.event) = row at hl
  generalize hdoc : m.eventLocks c.event = doc at hl
  generalize hkey : r.eventLocks c.event = key at hl
  cases c with
  | tryMarkAsProjecting event =>
    show 0 < ttl
    cases hl with
    | free =>
      by_contra hzero
      have hzero : ttl = 0 := by omega
      simp only [EventLockerCall.event] at hrow hkey
      simp [SqliteEventLocker.call, SqliteEventLocker.tryMarkAsProjecting_eq, hrow,
        RedisEventLocker.call, RedisEventLocker.tryMarkAsProjecting, hkey,
        RedisEventLocker.SCRIPT_TRY_LOCK, RedisKey.get, RedisKey.setPX, hzero, Except.map] at hredis
    | processing t httl => exact httl
    | processed t t' p p' httl => exact httl
  | markAsProjected event =>
    simp only [EventLockerCall.event] at hrow hkey
    intro row' hrow' hp
    rw [hrow] at hrow'
    cases hl with
    | free => simp at hrow'
    | processing t httl =>
      obtain rfl := Option.some.inj hrow'
      by_contra hlate
      have hlate : ¬ now ≤ t + ttl := hlate
      simp [SqliteEventLocker.call, SqliteEventLocker.markAsProjected_eq, hrow, notMarked,
        RedisEventLocker.call, RedisEventLocker.markAsProjected, hkey,
        RedisEventLocker.SCRIPT_FINALIZE_LOCK, RedisKey.get, hlate] at hredis
    | processed t t' p p' =>
      obtain rfl := Option.some.inj hrow'
      simp at hp

theorem sameLocks_outcomes_iff : ∀ {calls : List (ℤ × EventLockerCall)}
    {s : SqliteEventLocker (List ℕ) E} {m : MongoEventLocker} {r : RedisEventLocker},
    SameLocks ttl s m r → (∀ p ∈ calls, CanonicalId p.2.event) →
    AtEach ttl (NotAtExpiry ttl) s calls →
    ((outcomes (fun now m => m.call ttl now) m calls
          = outcomes (fun now s => s.call ttl now) s calls ∧
        outcomes (fun now r => r.call ttl now) r calls
          = outcomes (fun now s => s.call ttl now) s calls) ↔
      AtEach ttl (InTime ttl) s calls)
  | [], s, m, r, _, _, _ => by simp [outcomes, AtEach]
  | (now, c) :: calls, s, m, r, h, hid, hexp => by
    have hidc : CanonicalId c.event := hid (now, c) List.mem_cons_self
    have hrest : InTime ttl now s c → (_ ↔ _) := fun hin =>
      sameLocks_outcomes_iff (agrees_of_inTime h hidc hexp.1 hin).same
        (fun p hp => hid p (List.mem_cons_of_mem _ hp)) hexp.2
    constructor
    · rintro ⟨hm, hr⟩
      obtain ⟨hr₁, hr₂⟩ := List.cons.inj hr
      have hin := inTime_of_redis h hidc hr₁
      exact ⟨hin, (hrest hin).1 ⟨(List.cons.inj hm).2, hr₂⟩⟩
    · rintro ⟨hin, hins⟩
      have ha := agrees_of_inTime h hidc hexp.1 hin
      obtain ⟨hm, hr⟩ := (hrest hin).2 hins
      exact ⟨List.cons_eq_cons.2 ⟨ha.mongo, hm⟩, List.cons_eq_cons.2 ⟨ha.redis, hr⟩⟩

/-- For every sequence of calls, none exactly one TTL after the event was last locked: the outcomes
are the same on all three lockers if and only if each call is made in time. -/
theorem outcomes_agree_iff (ttl : ℕ) (calls : List (ℤ × EventLockerCall))
    (hid : ∀ p ∈ calls, CanonicalId p.2.event)
    (hexp : AtEach ttl (NotAtExpiry ttl) ({} : SqliteEventLocker (List ℕ) E) calls) :
    (outcomes (fun now m => MongoEventLocker.call ttl now m) {} calls =
          outcomes (fun now s => SqliteEventLocker.call (E := E) ttl now s) {} calls ∧
        outcomes (fun now r => RedisEventLocker.call ttl now r) {} calls =
          outcomes (fun now s => SqliteEventLocker.call (E := E) ttl now s) {} calls) ↔
      AtEach ttl (InTime ttl) ({} : SqliteEventLocker (List ℕ) E) calls :=
  sameLocks_outcomes_iff (fun _ _ => .free) hid hexp

/-- An event that is locked, locked again after its lock has run out, and marked. -/
theorem outcomes_agree_relocked :
    outcomes (fun now r => RedisEventLocker.call 15000 now r) {} [(0, .tryMarkAsProjecting "6e"),
        (15001, .tryMarkAsProjecting "6e"), (15010, .markAsProjected "6e"),
        (40000, .tryMarkAsProjecting "6e")] =
      [.returned true, .returned true, .resolved, .returned false] := by
  have h6e : CanonicalId "6e" := .of_all (by decide)
  have h := (outcomes_agree_iff (E := Unit) 15000 [(0, .tryMarkAsProjecting "6e"),
    (15001, .tryMarkAsProjecting "6e"), (15010, .markAsProjected "6e"),
    (40000, .tryMarkAsProjecting "6e")] (by simpa [EventLockerCall.event] using h6e)
    (by decide)).2 (by decide)
  exact h.2.trans (by decide)

/-- An event that is marked after its lock has run out. -/
theorem outcomes_agree_fails :
    ¬ ∀ (ttl : ℕ) (calls : List (ℤ × EventLockerCall)), (∀ p ∈ calls, CanonicalId p.2.event) →
      AtEach ttl (NotAtExpiry ttl) ({} : SqliteEventLocker (List ℕ) Unit) calls →
      outcomes (fun now m => MongoEventLocker.call ttl now m) {} calls =
          outcomes (fun now s => SqliteEventLocker.call (E := Unit) ttl now s) {} calls ∧
        outcomes (fun now r => RedisEventLocker.call ttl now r) {} calls =
          outcomes (fun now s => SqliteEventLocker.call (E := Unit) ttl now s) {} calls := by
  intro hall
  obtain ⟨-, h⟩ := hall 15000 [(0, .tryMarkAsProjecting "6e"), (15001, .markAsProjected "6e")]
    (by simpa [EventLockerCall.event] using .of_all (by decide)) (by decide)
  exact absurd h (by decide)

end NodeCqrs
