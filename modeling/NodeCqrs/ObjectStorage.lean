import Mathlib.Logic.Function.Basic
import NodeCqrs.Lib.Machine
import NodeCqrs.Lib.Versioned

/-!
# `IObjectStorage`

The record of one identifier, and any number of calls of the methods that write it. The storages
for Redis and for MongoDB read the record, run the callback, write if the version is still the one
they read, and start over if it is not; they differ in the conditional write (`ObjectStorage`). A
step is one command on the database, with what the call does with the answer up to its next
command. An update callback that throws does so with a message.
-/

namespace NodeCqrs

open Versioned (Effect)

inductive UpdateResult
  | updated
  | conflict
  | missing
deriving DecidableEq, Repr

/-- The conditional write of a storage: what it makes of the record, given the one that was read
and the data to write, and its result. -/
structure ObjectStorage (D : Type) where
  updateIfVersion : Versioned D → D → Option (Versioned D) → Option (Versioned D) × UpdateResult

namespace ObjectStorage

variable {D : Type}

/-- The methods that write. -/
inductive Method (D : Type)
  | create (data : D)
  | update (update : D → Except String D)
  | updateEnforcingNew (update : Option D → Except String D)
  | delete

/-- What the method is to do to the record. -/
def Method.effect : Method D → Effect D
  | .create data => .write fun
    | none => some data
    | some _ => none
  | .update f => .write fun r => r.bind fun data => (f data).toOption
  | .updateEnforcingNew f => .write fun r => (f r).toOption
  | .delete => .delete

/-- Where a call is: at a command to send, or settled. The write of an update comes with the record
that was read and with how many effects the record had seen then. -/
inductive Phase (D : Type)
  | insert (data : D)
  | get (attempt : ℕ)
  | updateIfVersion (attempt : ℕ) (read : Versioned D) (updated : D) (readAt : ℕ)
  | insertNew (attempt : ℕ) (data : D)
  | delete
  | resolved (deleted : Option Bool)
  | threw (message : String)

structure Call (D : Type) where
  method : Method D
  maxRetries : ℕ
  phase : Phase D

/-- The record, the calls, and in what order which of them took effect. -/
structure Sys (D : Type) where
  record : Option (Versioned D) := none
  calls : ℕ → Option (Call D) := fun _ => none
  effects : List (ℕ × Effect D) := []

inductive Action (D : Type)
  | call (c : ℕ) (method : Method D) (maxRetries : ℕ)
  | command (c : ℕ)

def Method.start : Method D → Phase D
  | .create data => .insert data
  | .update _ => .get 0
  | .updateEnforcingNew _ => .get 0
  | .delete => .delete

def Sys.set (s : Sys D) (c : ℕ) (call : Call D) : Sys D :=
  { s with calls := Function.update s.calls c (some call) }

def Sys.goOn (s : Sys D) (c : ℕ) (call : Call D) (phase : Phase D) : Sys D :=
  s.set c { call with phase }

/-- The call's command has written the record, and the call resolves. -/
def Sys.effect (s : Sys D) (c : ℕ) (call : Call D) (record : Option (Versioned D))
    (deleted : Option Bool) : Sys D :=
  { s with record, effects := s.effects ++ [(c, call.method.effect)] }.goOn c call
    (.resolved deleted)

variable (S : ObjectStorage D) (id : String)

/-- The loop of `update` and `updateEnforcingNew`, at its end. -/
def retry (call : Call D) (attempt : ℕ) : Phase D :=
  if attempt + 1 ≤ call.maxRetries then .get (attempt + 1)
  else
    match call.method with
    | .updateEnforcingNew _ =>
      .threw s!"Record '{id}' could not be upserted after {call.maxRetries} retries"
    | _ => .threw s!"Record '{id}' could not be updated after {call.maxRetries} retries"

/-- With the record read, `update` and `updateEnforcingNew` run the callback. -/
def callback (s : Sys D) (call : Call D) (attempt : ℕ) : Phase D :=
  match call.method, s.record with
  | .update update, some read =>
    match update read.data with
    | .ok updated => .updateIfVersion attempt read updated s.effects.length
    | .error message => .threw message
  | .updateEnforcingNew update, some read =>
    match update (some read.data) with
    | .ok updated => .updateIfVersion attempt read updated s.effects.length
    | .error message => .threw message
  | .updateEnforcingNew update, none =>
    match update none with
    | .ok data => .insertNew attempt data
    | .error message => .threw message
  | _, _ => .threw s!"Record '{id}' does not exist"

def command (s : Sys D) (c : ℕ) (call : Call D) : Option (Sys D) :=
  match call.phase with
  | .insert data =>
    match s.record with
    | none => some (s.effect c call (some { data, version := 1 }) none)
    | some _ => some (s.goOn c call (.threw s!"Record '{id}' could not be created"))
  | .get attempt => some (s.goOn c call (callback id s call attempt))
  | .updateIfVersion attempt read updated _ =>
    match S.updateIfVersion read updated s.record, call.method with
    | (record, .updated), _ => some (s.effect c call record none)
    | (_, .missing), .update _ =>
      some (s.goOn c call (.threw s!"Record '{id}' does not exist"))
    | (_, _), _ => some (s.goOn c call (retry id call attempt))
  | .insertNew attempt data =>
    match s.record with
    | none => some (s.effect c call (some { data, version := 1 }) none)
    | some _ => some (s.goOn c call (retry id call attempt))
  | .delete =>
    match s.record with
    | none => some (s.goOn c call (.resolved (some false)))
    | some _ => some (s.effect c call none (some true))
  | .resolved _ => none
  | .threw _ => none

def step (s : Sys D) : Action D → Option (Sys D)
  | .call c method maxRetries =>
    match s.calls c with
    | some _ => none
    | none => some (s.set c { method, maxRetries, phase := method.start })
  | .command c => (s.calls c).bind (command S id s c)

def machine : Machine (Sys D) (Action D) := ⟨(· = {}), step S id⟩

def Sys.Resolved (s : Sys D) (c : ℕ) : Prop :=
  ∃ call deleted, s.calls c = some call ∧ call.phase = .resolved deleted

def Sys.Threw (s : Sys D) (c : ℕ) : Prop :=
  ∃ call message, s.calls c = some call ∧ call.phase = .threw message

end ObjectStorage

end NodeCqrs
