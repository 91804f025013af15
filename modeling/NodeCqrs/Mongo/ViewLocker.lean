import NodeCqrs.Lib.Machine
import NodeCqrs.Utils.Timers

/-!
# `MongoViewLocker`

Any number of lockers on one lock document. A call sends an operation, the database runs it, and the
call goes on with the answer, each in a step of its own; what a call reads of its locker it reads
when it goes on. A filter for null finds a missing field too and an undefined value is sent as null,
so all three are none here.
-/

namespace NodeCqrs

namespace MongoViewLocker

/-- What `randomUUID` returns to a locker's `n`-th `lock()` call. -/
structure LockToken where
  locker : ℕ
  n : ℕ
deriving DecidableEq, Repr

structure ViewLockDocument where
  lockedTill : Option ℤ
  token : Option LockToken
  lastEvent : Option String := none
deriving DecidableEq, Repr

/-- `updateOne` of `lock()`: what it leaves, and its `modifiedCount`. -/
def updateOne (now lockedTill : ℤ) (token : Option LockToken) :
    Option ViewLockDocument → Option ViewLockDocument × ℕ
  | none => (none, 0)
  | some doc =>
    if ∀ t ∈ doc.lockedTill, t < now then
      let claimed := { doc with lockedTill := some lockedTill, token }
      (some claimed, if claimed = doc then 0 else 1)
    else (some doc, 0)

/-- `insertOne` of `lock()`; where the document exists it fails with code 11000. -/
def insertOne (lockedTill : ℤ) (token : Option LockToken) :
    Option ViewLockDocument → Option ViewLockDocument × Bool
  | none => (some { lockedTill := some lockedTill, token }, true)
  | some doc => (some doc, false)

/-- `findOneAndUpdate` of `prolongLock()`, and whether it has a result. -/
def prolong (lockedTill : ℤ) (token : Option LockToken) :
    Option ViewLockDocument → Option ViewLockDocument × Bool
  | none => (none, false)
  | some doc =>
    if doc.token = token then (some { doc with lockedTill := some lockedTill }, true)
    else (some doc, false)

/-- `findOneAndUpdate` of `unlock()`, and whether it has a result. -/
def release (token : Option LockToken) :
    Option ViewLockDocument → Option ViewLockDocument × Bool
  | none => (none, false)
  | some doc =>
    if doc.token = token then (some { doc with lockedTill := none, token := none }, true)
    else (some doc, false)

/-- How far a call is: what it waits for, with the values it goes on with. -/
inductive Phase
  | lock
  | updateOne (now lockedTill : ℤ) (token : Option LockToken)
  | updated (lockedTill : ℤ) (modifiedCount : ℕ)
  | insertOne (lockedTill : ℤ) (token : Option LockToken)
  | inserted (ok : Bool)
  | delay (till : ℤ)
  | prolongLock
  | prolong (lockedTill : ℤ) (token : Option LockToken)
  | prolonged (found : Bool)
  | unlock
  | release (token : Option LockToken)
  | released
deriving DecidableEq, Repr

structure Call where
  locker : ℕ
  phase : Phase
deriving DecidableEq, Repr

/-- One locker: its fields and how often it called `lock()`; and, to state what it holds, whether
`lock()` returned since the last `unlock()`, the expiry it last wrote, whether `unlock()` is its last
call, and whether that has resolved. -/
structure Locker where
  lockToken : Option LockToken := none
  lockMarker : Bool := false
  lockProlongationTimeout : Option ℕ := none
  locks : ℕ := 0
  locked : Bool := false
  lastWritten : Option ℤ := none
  unlocked : Bool := false
  released : Bool := false
deriving DecidableEq, Repr

/-- `get ready()` -/
def Locker.ready (l : Locker) : Bool := !l.lockMarker

structure Sys where
  now : ℤ := 0
  doc : Option ViewLockDocument := none
  lockers : ℕ → Locker := fun _ => {}
  calls : ℕ → Option Call := fun _ => none
  timers : Timers := {}

/-- `lock`, `unlock` and `fire` start a call, `goOn` is a call going on with what it waited for,
`run` the database running its operation. -/
inductive Action
  | tick (ms : ℕ)
  | lock (c i : ℕ)
  | unlock (c i : ℕ)
  | fire (c handle : ℕ)
  | goOn (c : ℕ)
  | run (c : ℕ)
deriving DecidableEq, Repr

def Sys.setCall (s : Sys) (c : ℕ) (call : Option Call) : Sys :=
  { s with calls := Function.update s.calls c call }

def Sys.setLocker (s : Sys) (i : ℕ) (l : Locker) : Sys :=
  { s with lockers := Function.update s.lockers i l }

/-- The locker has written the expiry. -/
def Sys.wrote (s : Sys) (i : ℕ) (lockedTill : ℤ) : Sys :=
  s.setLocker i { s.lockers i with lastWritten := some lockedTill }

variable (viewLockTtl : ℕ → ℤ)

def scheduleLockProlongation (s : Sys) (i : ℕ) : Sys :=
  { s with timers := s.timers.setTimeout i (s.now + halfTimeout (viewLockTtl i)) }.setLocker i
    { s.lockers i with lockProlongationTimeout := some s.timers.nextHandle }

def cancelLockProlongation (s : Sys) (i : ℕ) : Sys :=
  { s with timers := s.timers.clearTimeout (s.lockers i).lockProlongationTimeout }

/-- The end of `lock()`. -/
def lockReturns (s : Sys) (c i : ℕ) : Sys :=
  let s := scheduleLockProlongation viewLockTtl (s.setCall c none) i
  s.setLocker i { s.lockers i with locked := true }

/-- A call up to its next wait. -/
def goOn (s : Sys) (c : ℕ) (call : Call) : Option Sys :=
  let i := call.locker
  let token := (s.lockers i).lockToken
  let lockedTill := s.now + viewLockTtl i
  match call.phase with
  | .lock => some (s.setCall c (some { call with phase := .updateOne s.now lockedTill token }))
  | .updated lockedTill modifiedCount =>
    if modifiedCount = 1 then some (lockReturns viewLockTtl s c i)
    else some (s.setCall c (some { call with phase := .insertOne lockedTill token }))
  | .inserted ok =>
    if ok then some (lockReturns viewLockTtl s c i)
    else some (s.setCall c
      (some { call with phase := .delay (s.now + halfTimeout (viewLockTtl i)) }))
  | .delay till =>
    if till ≤ s.now then
      some (s.setCall c (some { call with phase := .updateOne s.now lockedTill token }))
    else none
  | .prolongLock => some (s.setCall c (some { call with phase := .prolong lockedTill token }))
  | .prolonged found =>
    if found then some (scheduleLockProlongation viewLockTtl (s.setCall c none) i)
    else some (s.setCall c none)
  | .unlock => some (s.setCall c (some { call with phase := .release token }))
  | .released =>
    let l := s.lockers i
    some ((s.setCall c none).setLocker i { l with lockToken := none, released := l.unlocked })
  | _ => none

/-- The database runs the call's operation. -/
def run (s : Sys) (c : ℕ) (call : Call) : Option Sys :=
  let i := call.locker
  match call.phase with
  | .updateOne now lockedTill token =>
    let (doc, modifiedCount) := updateOne now lockedTill token s.doc
    let s := if modifiedCount = 1 then s.wrote i lockedTill else s
    some ({ s with doc }.setCall c (some { call with phase := .updated lockedTill modifiedCount }))
  | .insertOne lockedTill token =>
    let (doc, ok) := insertOne lockedTill token s.doc
    let s := if ok then s.wrote i lockedTill else s
    some ({ s with doc }.setCall c (some { call with phase := .inserted ok }))
  | .prolong lockedTill token =>
    let (doc, found) := prolong lockedTill token s.doc
    let s := if found then s.wrote i lockedTill else s
    some ({ s with doc }.setCall c (some { call with phase := .prolonged found }))
  | .release token =>
    some ({ s with doc := (release token s.doc).1 }.setCall c
      (some { call with phase := .released }))
  | _ => none

def step (s : Sys) : Action → Option Sys
  | .tick ms => some { s with now := s.now + ms }
  | .lock c i =>
    match s.calls c with
    | some _ => none
    | none =>
      let l := s.lockers i
      some ((s.setLocker i { l with
        lockMarker := true
        lockToken := some { locker := i, n := l.locks }
        locks := l.locks + 1
        unlocked := false
        released := false }).setCall c (some { locker := i, phase := .lock }))
  | .unlock c i =>
    match s.calls c with
    | some _ => none
    | none =>
      let s := cancelLockProlongation s i
      some ((s.setLocker i { s.lockers i with
        lockMarker := false
        locked := false
        unlocked := true
        released := false }).setCall c (some { locker := i, phase := .unlock }))
  | .fire c handle =>
    match s.calls c, s.timers.armed handle with
    | none, some timer =>
      if timer.due ≤ s.now then
        some ({ s with timers := s.timers.clear handle }.setCall c
          (some { locker := timer.owner, phase := .prolongLock }))
      else none
    | _, _ => none
  | .goOn c => (s.calls c).bind (goOn viewLockTtl s c)
  | .run c => (s.calls c).bind (run s c)

/-- No locker has called anything yet; the document may be missing, released or locked by others. -/
def Init (s : Sys) : Prop :=
  (∀ i, s.lockers i = {}) ∧ (∀ c, s.calls c = none) ∧ ∀ h, s.timers.armed h = none

def machine : Machine Sys Action := ⟨Init, step viewLockTtl⟩

/-- The locker holds the lock: its `lock()` returned, it has not called `unlock()` since, and the
expiry it last wrote is not in the past. -/
def Holds (s : Sys) (i : ℕ) : Prop :=
  (s.lockers i).locked = true ∧ ∃ t, (s.lockers i).lastWritten = some t ∧ s.now ≤ t

/-- The call is one of `lock()` that has got the lock, and returns when it goes on. -/
def Phase.obtained : Phase → Prop
  | .updated _ modifiedCount => modifiedCount = 1
  | .inserted ok => ok
  | _ => False

/-- The operation the call has sent writes the document. -/
def writesDoc (doc : Option ViewLockDocument) : Phase → Prop
  | .updateOne now lockedTill token => (updateOne now lockedTill token doc).2 = 1
  | .insertOne lockedTill token => (insertOne lockedTill token doc).2
  | .prolong lockedTill token => (prolong lockedTill token doc).2
  | .release token => (release token doc).2
  | _ => False

/-- The locker writes the document with the step. -/
def Writes (s : Sys) (i : ℕ) : Action → Prop
  | .run c => ∃ call, s.calls c = some call ∧ call.locker = i ∧ writesDoc s.doc call.phase
  | _ => False

end MongoViewLocker

end NodeCqrs
