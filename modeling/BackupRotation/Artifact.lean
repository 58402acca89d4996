import BackupRotation.Instant.Basic
/-! A backup as the rotation sees it, and lists of backups whose names may repeat: only the first
backup of each name counts. -/
namespace BackupRotation

structure Artifact where
  id : String
  size : UInt64
  created : Instant
  deriving DecidableEq, Repr, Inhabited

namespace Artifact

def firstsAfter (seen : List String) : List Artifact → List Artifact
  | [] => []
  | a :: as => if a.id ∈ seen then firstsAfter seen as else a :: firstsAfter (a.id :: seen) as

def firsts (as : List Artifact) : List Artifact := firstsAfter [] as

def repeatsAfter (seen : List String) : List Artifact → List String
  | [] => []
  | a :: as => if a.id ∈ seen then a.id :: repeatsAfter seen as else repeatsAfter (a.id :: seen) as

def repeats (as : List Artifact) : List String := repeatsAfter [] as

/-- The time of the newest backup. Ages are measured from it and never from the clock, so a late or
repeated run decides alike. -/
def anchor? : List Artifact → Option Instant
  | [] => none
  | a :: as => some (as.foldl (fun t b => Instant.latest t b.created) a.created)

def totalSize (as : List Artifact) : Nat := as.foldr (fun a n => a.size.toNat + n) 0

def newestFirst (as : List Artifact) : List Artifact :=
  as.mergeSort fun a b => b.created ≤ a.created

theorem firstsAfterSublist (seen : List String) (as : List Artifact) :
    (firstsAfter seen as).Sublist as := by
  induction as generalizing seen with
  | nil => exact List.Sublist.slnil
  | cons a as ih =>
    simp only [firstsAfter]
    split
    · exact (ih seen).cons a
    · exact (ih _).cons_cons a

theorem firstsSublist (as : List Artifact) : (firsts as).Sublist as := firstsAfterSublist [] as

theorem newestFirstPerm (as : List Artifact) : (newestFirst as).Perm as := List.mergeSort_perm as _

end Artifact
end BackupRotation
