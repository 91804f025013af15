import NodeCqrs.ObjectStorage

/-!
# `MongoObjectStorage`
-/

namespace NodeCqrs

variable {D : Type}

namespace MongoObjectStorage

/-- `findOneAndUpdate` under the version that was read: a record that is gone and one of another
version are both no result. -/
def findOneAndUpdate (doc : Versioned D) (updatedData : D) :
    Option (Versioned D) → Option (Versioned D) × UpdateResult
  | none => (none, .conflict)
  | some r =>
    if r.version = doc.version then
      (some { data := updatedData, version := doc.version + 1 }, .updated)
    else (some r, .conflict)

end MongoObjectStorage

def mongoObjectStorage : ObjectStorage D := ⟨MongoObjectStorage.findOneAndUpdate⟩

end NodeCqrs
