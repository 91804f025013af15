import NodeCqrs.Lib.Machine
import NodeCqrs.Redis.Key
import NodeCqrs.Utils.Timers

/-!
# `RedisViewLocker`

One locker and its key. Calls go on from `assertConnection` in the order they were made, Redis runs
the commands of the client in the order it got them and answers in that order, and each of this
takes its time. A token that is undefined is sent as an empty string, which is none here.
-/

namespace NodeCqrs

namespace RedisViewLocker

/-- What `randomUUID` returns to the locker's `n`-th `lock()` call, or to other lockers. -/
inductive LockToken
  | own (n : ℕ)
  | other (n : ℕ)
deriving DecidableEq, Repr

abbrev Key := Option (RedisKey (Option LockToken))

/-- `SCRIPT_PROLONG_LOCK`: what it makes of the key, and its result. -/
def SCRIPT_PROLONG_LOCK (now : ℤ) (token : Option LockToken) (viewLockTtl : ℕ) (key : Key) :
    Key × ℕ :=
  if RedisKey.get now key = some token then (RedisKey.pexpire now viewLockTtl key, 1) else (key, 0)

/-- `SCRIPT_RELEASE_LOCK` -/
def SCRIPT_RELEASE_LOCK (now : ℤ) (token : Option LockToken) (key : Key) : Key × ℕ :=
  if RedisKey.get now key = some token then (none, 1) else (key, 0)

/-- A call that awaits `assertConnection`; of `prolongLock()` also whether it was fired when `lock()`
had returned and `unlock()` was not called since. -/
inductive Waiter
  | lock
  | prolongLock (held : Bool)
  | unlock
deriving DecidableEq, Repr

inductive Command
  | set (token : Option LockToken)
  | prolong (token : Option LockToken) (held : Bool)
  | release (token : Option LockToken)
deriving DecidableEq, Repr

inductive Reply
  | set (result : Except String Bool)
  | prolong (result : ℕ)
  | release

/-- The fields of the locker and how often it called `lock()`; the calls that await the connection,
the commands Redis has not run and the answers the calls have not gone on with; and till when
`lock()` waits to try again. To state what it holds: the values it has set the key to, the expiry it
last gave it, whether `lock()` returned since the last `unlock()`, and whether `unlock()` is its last
call. -/
structure Sys where
  now : ℤ := 0
  key : Key := none
  lockToken : Option LockToken := none
  lockMarker : Bool := false
  lockProlongationTimeout : Option ℕ := none
  locks : ℕ := 0
  timers : Timers := {}
  connecting : List Waiter := []
  issued : List Command := []
  replies : List Reply := []
  delays : List ℤ := []
  written : List (Option LockToken) := []
  expiresAt : Option ℤ := none
  locked : Bool := false
  unlocked : Bool := false

/-- `get ready()` -/
def Sys.ready (s : Sys) : Bool := !s.lockMarker

/-- `others` is what the clients of other lockers make of the key, `connect` a call going on from
`assertConnection`, `exec` Redis running a command, `reply` a call going on with its answer, and
`retry` `lock()` trying again. -/
inductive Action
  | tick (ms : ℕ)
  | others (key : Option (RedisKey ℕ))
  | lock
  | unlock
  | fire (handle : ℕ)
  | connect
  | exec
  | reply
  | retry

variable (viewLockTtl : ℕ)

def scheduleLockProlongation (s : Sys) : Sys :=
  { s with
    lockProlongationTimeout := some s.timers.nextHandle
    timers := s.timers.setTimeout 0 (s.now + halfTimeout viewLockTtl) }

def cancelLockProlongation (s : Sys) : Sys :=
  { s with timers := s.timers.clearTimeout s.lockProlongationTimeout }

def isOwn : Option LockToken → Bool
  | some (.own _) => true
  | _ => false

/-- The key is there, with a token of this locker. -/
def Sys.owned (s : Sys) : Bool := (RedisKey.get s.now s.key).elim false isOwn

/-- The command a call sends. -/
def send (s : Sys) : Waiter → Command
  | .lock => .set s.lockToken
  | .prolongLock held => .prolong s.lockToken held
  | .unlock => .release s.lockToken

/-- Redis runs a command. -/
def exec (s : Sys) : Command → Sys
  | .set token =>
    match RedisKey.setNX s.now token viewLockTtl s.key with
    | .error e => { s with replies := s.replies ++ [.set (.error e)] }
    | .ok (key, true) => { s with
        key
        replies := s.replies ++ [.set (.ok true)]
        written := s.written ++ [token]
        expiresAt := some (s.now + viewLockTtl) }
    | .ok (key, false) => { s with key, replies := s.replies ++ [.set (.ok false)] }
  | .prolong token _ =>
    let (key, result) := SCRIPT_PROLONG_LOCK s.now token viewLockTtl s.key
    { s with
      key
      replies := s.replies ++ [.prolong result]
      expiresAt := if result = 1 then some (s.now + viewLockTtl) else s.expiresAt }
  | .release token =>
    { s with
      key := (SCRIPT_RELEASE_LOCK s.now token s.key).1
      replies := s.replies ++ [.release] }

/-- A call goes on with its answer; `lock()` throws with an error, `prolongLock()` with a result other
than one. -/
def goOn (s : Sys) : Reply → Sys
  | .set (.error _) => s
  | .set (.ok true) => { scheduleLockProlongation viewLockTtl s with locked := true }
  | .set (.ok false) => { s with delays := s.delays ++ [s.now + halfTimeout viewLockTtl] }
  | .prolong result => if result = 1 then scheduleLockProlongation viewLockTtl s else s
  | .release => { s with lockToken := none }

def step (s : Sys) : Action → Option Sys
  | .tick ms => some { s with now := s.now + ms }
  | .others key =>
    if s.owned then none
    else some { s with
      key := key.map fun k => { value := some (.other k.value), expiresAt := k.expiresAt } }
  | .lock => some { s with
      lockMarker := true
      lockToken := some (.own s.locks)
      locks := s.locks + 1
      unlocked := false
      connecting := s.connecting ++ [.lock] }
  | .unlock => some { cancelLockProlongation s with
      lockMarker := false
      locked := false
      unlocked := true
      connecting := s.connecting ++ [.unlock] }
  | .fire handle =>
    match s.timers.armed handle with
    | some timer =>
      if timer.due ≤ s.now then some { s with
        timers := s.timers.clear handle
        connecting := s.connecting ++ [.prolongLock s.locked] }
      else none
    | none => none
  | .connect =>
    match s.connecting with
    | [] => none
    | call :: connecting => some { s with connecting, issued := s.issued ++ [send s call] }
  | .exec =>
    match s.issued with
    | [] => none
    | command :: issued => some (exec viewLockTtl { s with issued } command)
  | .reply =>
    match s.replies with
    | [] => none
    | reply :: replies => some (goOn viewLockTtl { s with replies } reply)
  | .retry =>
    match s.delays with
    | [] => none
    | till :: delays =>
      if till ≤ s.now then some { s with delays, issued := s.issued ++ [.set s.lockToken] }
      else none

/-- The locker is new; the key may be another's. -/
def Init (s : Sys) : Prop :=
  ∃ (now : ℤ) (key : Option (RedisKey ℕ)), s = { now, key := key.map fun k =>
    { value := some (.other k.value), expiresAt := k.expiresAt } }

def machine : Machine Sys Action := ⟨Init, step viewLockTtl⟩

def Waiter.isLock : Waiter → Bool
  | .lock => true
  | _ => false

def Waiter.isUnlock : Waiter → Bool
  | .unlock => true
  | _ => false

def Command.isSet : Command → Bool
  | .set _ => true
  | _ => false

def Command.isRelease : Command → Bool
  | .release _ => true
  | _ => false

def Reply.isSet : Reply → Bool
  | .set _ => true
  | _ => false

def Reply.isRelease : Reply → Bool
  | .release => true
  | _ => false

/-- How many `lock()` calls are under way. -/
def Sys.locking (s : Sys) : ℕ := s.connecting.countP Waiter.isLock + s.issued.countP Command.isSet +
  s.replies.countP Reply.isSet + s.delays.length

/-- How many `unlock()` calls are under way. -/
def Sys.unlocking (s : Sys) : ℕ := s.connecting.countP Waiter.isUnlock +
  s.issued.countP Command.isRelease + s.replies.countP Reply.isRelease

/-- If `unlock()` is the last call and each has resolved, the key has no value that this locker has
set. -/
def Freed (s : Sys) : Prop :=
  s.unlocked = true → s.unlocking = 0 → ∀ v, RedisKey.get s.now s.key = some v → v ∉ s.written

/-- The script of a `prolongLock()` that was fired between a completed `lock()` and the next
`unlock()` succeeds, if it runs before the key expires. -/
def Prolongs (s : Sys) : Prop :=
  ∀ token issued, s.issued = .prolong token true :: issued → ∀ t, s.expiresAt = some t →
    s.now ≤ t → (SCRIPT_PROLONG_LOCK s.now token viewLockTtl s.key).2 = 1

end RedisViewLocker

end NodeCqrs
