import Mathlib.Logic.Function.Basic
import NodeCqrs.Lib.Replies
import NodeCqrs.Lib.Versioned
import NodeCqrs.Sqlite.Guid

/-!
# `SqliteObjectStorage`

A table of records under the bytes of their identifiers, and its methods called one at a time.
Records come out of their JSON as they went in; an update callback that throws does so with a
message.
-/

namespace NodeCqrs

/-- What `String` makes of an identifier that is defined. -/
abbrev Identifier := { str : String // str ≠ "" }

/-- A call of a method of `IObjectStorage`. -/
inductive StorageCall (D : Type)
  | get (id : Identifier)
  | create (id : Identifier) (data : D)
  | update (id : Identifier) (update : D → Except String D)
  | updateEnforcingNew (id : Identifier) (update : Option D → Except String D)
  | delete (id : Identifier)

def StorageCall.id {D : Type} : StorageCall D → Identifier
  | .get id | .create id _ | .update id _ | .updateEnforcingNew id _ | .delete id => id

inductive StorageReply (D : Type)
  | record (data : Option D)
  | done
  | deleted (deleted : Bool)
  | threw (message : String)
deriving DecidableEq, Repr

/-- The rows by their primary key. -/
abbrev SqliteObjectStorage (D : Type) := List ℕ → Option (Versioned D)

namespace SqliteObjectStorage

variable {D : Type} (tableName : String)

def insertQuery (s : SqliteObjectStorage D) (id : List ℕ) (data : D) :
    Except String (ℕ × SqliteObjectStorage D) :=
  match s id with
  | some _ => .error s!"UNIQUE constraint failed: {tableName}.id"
  | none => .ok (1, Function.update s id (some { data, version := 1 }))

def updateByIdAndVersionQuery (s : SqliteObjectStorage D) (data : D) (id : List ℕ)
    (version : ℕ) : ℕ × SqliteObjectStorage D :=
  match s id with
  | some r =>
    if r.version = version then
      (1, Function.update s id (some { data, version := r.version + 1 }))
    else (0, s)
  | none => (0, s)

def deleteQuery (s : SqliteObjectStorage D) (id : List ℕ) : ℕ × SqliteObjectStorage D :=
  match s id with
  | some _ => (1, Function.update s id none)
  | none => (0, s)

def get (s : SqliteObjectStorage D) (id : Identifier) : Option D := (s (guid id)).map (·.data)

def createSync (s : SqliteObjectStorage D) (id : Identifier) (data : D) :
    Except String (SqliteObjectStorage D) := do
  let (changes, s) ← insertQuery tableName s (guid id) data
  if changes ≠ 1 then .error s!"Record '{id}' could not be created" else .ok s

def updateExistingSync (s : SqliteObjectStorage D) (id : Identifier) (record : Versioned D)
    (update : D → Except String D) : Except String (SqliteObjectStorage D) := do
  let updatedData ← update record.data
  let (changes, s) := s.updateByIdAndVersionQuery updatedData (guid id) record.version
  if changes ≠ 1 then .error s!"Record '{id}' could not be updated" else .ok s

def updateSync (s : SqliteObjectStorage D) (id : Identifier) (update : D → Except String D) :
    Except String (SqliteObjectStorage D) :=
  match s (guid id) with
  | none => .error s!"Record '{id}' does not exist"
  | some record => s.updateExistingSync id record update

def updateEnforcingNew (s : SqliteObjectStorage D) (id : Identifier)
    (update : Option D → Except String D) : Except String (SqliteObjectStorage D) :=
  match s (guid id) with
  | some record => s.updateExistingSync id record fun r => update (some r)
  | none => do createSync tableName s id (← update none)

def delete (s : SqliteObjectStorage D) (id : Identifier) : Bool × SqliteObjectStorage D :=
  let (changes, s) := s.deleteQuery (guid id)
  (changes = 1, s)

/-- A method that throws leaves the state as it is. -/
def settle {σ : Type} (s : σ) : Except String σ → StorageReply D × σ
  | .ok s => (.done, s)
  | .error message => (.threw message, s)

def perform (s : SqliteObjectStorage D) : StorageCall D → StorageReply D × SqliteObjectStorage D
  | .get id => (.record (s.get id), s)
  | .create id data => settle s (createSync tableName s id data)
  | .update id f => settle s (s.updateSync id f)
  | .updateEnforcingNew id f => settle s (updateEnforcingNew tableName s id f)
  | .delete id =>
    let (deleted, s) := s.delete id
    (.deleted deleted, s)

/-- A map from the identifiers to their records does the same to one key of its own. -/
def performMap (m : Identifier → Option D) : StorageCall D →
    StorageReply D × (Identifier → Option D)
  | .get id => (.record (m id), m)
  | .create id data =>
    match m id with
    | some _ => (.threw s!"UNIQUE constraint failed: {tableName}.id", m)
    | none => (.done, Function.update m id (some data))
  | .update id f =>
    match m id with
    | none => (.threw s!"Record '{id}' does not exist", m)
    | some data => settle m ((f data).map fun data => Function.update m id (some data))
  | .updateEnforcingNew id f =>
    settle m ((f (m id)).map fun data => Function.update m id (some data))
  | .delete id => (.deleted (m id).isSome, Function.update m id none)

end SqliteObjectStorage

end NodeCqrs
