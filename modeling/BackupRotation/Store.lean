import BackupRotation.Decision
import BackupRotation.Pruning
/-! A store of backups in memory. Deletions of chosen names can be made to fail. -/
namespace BackupRotation

structure Store where
  artifacts : List Artifact
  failing : List String
  deriving DecidableEq, Repr

namespace Store

def ofArtifacts (as : List Artifact) : Store := ⟨as, []⟩

def ids (s : Store) : List String := s.artifacts.map fun a => a.id

def failDeletesOf (s : Store) (id : String) : Store := { s with failing := id :: s.failing }

def without (s : Store) (id : String) : List Artifact := s.artifacts.filter fun a => a.id ≠ id

def delete (s : Store) (id : String) : Store × Except StorageError Unit :=
  if id ∈ s.failing then (s, .error (.refused id))
  else if id ∈ s.ids then ({ s with artifacts := s.without id }, .ok ())
  else (s, .error (.notFound id))

def deleteAll (s : Store) : List Artifact → Store × List Outcome
  | [] => (s, [])
  | a :: as =>
    let (s, result) := s.delete a.id
    let (s, outcomes) := deleteAll s as
    (s, Outcome.of a result :: outcomes)

def prune (s : Store) (as : List Artifact) : Store × PruneReport :=
  let (s, outcomes) := s.deleteAll as
  (s, .ofOutcomes outcomes)

def apply (s : Store) (p : Policy) : Store × Partition × PruneReport :=
  let decided := Decision.evaluate s.artifacts p
  let (s, report) := s.prune decided.delete
  (s, decided, report)

theorem deleteFailing (s : Store) (id : String) (e : StorageError) (h : (s.delete id).2 = .error e) :
    (s.delete id).1 = s := by
  unfold delete at *
  split
  · rfl
  · split
    · simp_all
    · rfl

theorem deleteAllFailing (s : Store) (as : List Artifact) : (s.deleteAll as).1.failing = s.failing := by
  induction as generalizing s with
  | nil => rfl
  | cons a as ih =>
    simp only [deleteAll, ih]
    unfold delete
    split
    · rfl
    · split <;> rfl

end Store
end BackupRotation
