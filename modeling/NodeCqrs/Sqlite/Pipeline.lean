import NodeCqrs.EventDispatcher
import NodeCqrs.Sqlite.EventStorage

/-!
# A pipeline with `SqliteEventStorage`

The processors of one pipeline in any order, over the storages they work on. The identifiers the
provider gives are those of a sequence.
-/

namespace NodeCqrs

/-- What the processors work on. The provider has given as many identifiers as are counted. -/
structure PipelineStorages (V : Type) where
  identifiers : ℕ := 0
  eventStorage : SqliteEventStorage V := {}
  snapshotStorage : InMemorySnapshotStorage String V := {}

/-- The processors. -/
inductive PipelineStage
  | eventIdAugmentor
  | inMemorySnapshotStorage
  | sqliteEventStorage
deriving DecidableEq, Repr

namespace PipelineStage

variable {V : Type} (newId : ℕ → String)

/-- `EventIdAugmentor.process`, with the number of identifiers given. -/
def augment : ℕ → List (Envelope String V) → ℕ × List (Envelope String V)
  | n, [] => (n, [])
  | n, envelope :: batch =>
    match envelope.event with
    | some event =>
      if event.id.any (· ≠ "") then
        let (n', batch') := augment n batch
        (n', envelope :: batch')
      else
        let (n', batch') := augment (n + 1) batch
        (n', { envelope with event := some { event with id := some (newId n) } } :: batch')
    | none =>
      let (n', batch') := augment n batch
      (n', envelope :: batch')

variable [Truthy V]

/-- The processor, as `EventDispatchPipeline` takes it. -/
def processor : PipelineStage → Processor (PipelineStorages V) String V
  | eventIdAugmentor => {
      process := fun s batch =>
        let (identifiers, batch') := augment newId s.identifiers batch
        ({ s with identifiers }, .ok batch') }
  | inMemorySnapshotStorage => {
      process := fun s batch =>
        let (snapshotStorage, result) := s.snapshotStorage.process batch
        ({ s with snapshotStorage }, result)
      revert := fun s batch =>
        let (snapshotStorage, error) := s.snapshotStorage.revert batch
        ({ s with snapshotStorage }, error) }
  | sqliteEventStorage => {
      process := fun s batch =>
        let (eventStorage, result) := s.eventStorage.process batch
        ({ s with eventStorage }, result) }

end PipelineStage

end NodeCqrs
