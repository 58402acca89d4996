import BackupRotation.Artifact
import BackupRotation.Event
import BackupRotation.StorageError
/-! The outcome of deleting many backups. Each deletion stands on its own: a failure is recorded
against its backup and stops none of the others. Outcomes stand in the order of the requests, whatever
order the deletions take effect in. -/
namespace BackupRotation

structure Outcome where
  artifact : Artifact
  failure : Option StorageError
  deriving DecidableEq, Repr

namespace Outcome

def of (a : Artifact) : Except StorageError Unit → Outcome
  | .ok () => ⟨a, none⟩
  | .error e => ⟨a, some e⟩

end Outcome

structure FailedDeletion where
  id : String
  cause : StorageError
  deriving DecidableEq, Repr

structure PruneReport where
  deleted : List String
  failed : List FailedDeletion
  freedSize : Nat
  deriving DecidableEq, Repr

namespace PruneReport

def isClean (r : PruneReport) : Bool := r.failed.isEmpty

def deletedOf (os : List Outcome) : List Artifact :=
  (os.filter fun o => o.failure.isNone).map fun o => o.artifact

def failedOf (os : List Outcome) : List FailedDeletion :=
  os.filterMap fun o => o.failure.map fun e => ⟨o.artifact.id, e⟩

def ofOutcomes (os : List Outcome) : PruneReport where
  deleted := (deletedOf os).map fun a => a.id
  failed := failedOf os
  freedSize := Artifact.totalSize (deletedOf os)

def events (r : PruneReport) : List Event :=
  (r.failed.map fun f => .deletionFailed f.id f.cause.message) ++
    [.pruned r.deleted.length r.freedSize r.failed.length]

end PruneReport

def inFlight (requested : Nat) : Nat := max requested 1

end BackupRotation
