import BackupRotation.Proofs.Reasons
import Mathlib.Algebra.Ring.Nat
/-! A decision leaves no first backup of a name out, decides on none twice, and reports sizes that add
up to theirs. -/
namespace BackupRotation

namespace Artifact

/-- A number as 64 bits, if they can hold it. -/
def fit64? (n : Nat) : Option UInt64 :=
  if n < 18446744073709551616 then some (UInt64.ofNat n) else none

def add64? (m n : UInt64) : Option UInt64 := fit64? (m.toNat + n.toNat)

/-- The sizes added up one after the other in 64 bits, if no sum on the way leaves them. -/
def size64? (as : List Artifact) : Option UInt64 := as.foldlM (fun n a => add64? n a.size) 0

theorem fit64?_toNat (n : UInt64) : fit64? n.toNat = some n := by
  simp [fit64?, n.toNat_lt]

theorem fit64?_bind (m n : Nat) : (fit64? m >>= fun k => fit64? (k.toNat + n)) = fit64? (m + n) := by
  by_cases fits : m < 18446744073709551616
  · have same : (UInt64.ofNat m).toNat = m := UInt64.toNat_ofNat_of_lt' fits
    simp [fit64?, fits, same]
  · have beyond : ¬ m + n < 18446744073709551616 := by omega
    simp [fit64?, fits, beyond]

theorem addedSizes (n : UInt64) (as : List Artifact) :
    as.foldlM (fun n a => add64? n a.size) n = fit64? (n.toNat + totalSize as) := by
  induction as generalizing n with
  | nil => exact (fit64?_toNat n).symm
  | cons a as ih =>
    have total : n.toNat + totalSize (a :: as) = n.toNat + a.size.toNat + totalSize as := by
      simp only [totalSize, List.foldr_cons]
      omega
    rw [List.foldlM_cons, total, ← fit64?_bind]
    exact congrArg _ (funext ih)

theorem size64?_eq (as : List Artifact) : size64? as = fit64? (totalSize as) := by
  rw [size64?, addedSizes]
  simp

theorem addedTotals (as bs : List Artifact) :
    (do add64? (← size64? as) (← size64? bs)) = fit64? (totalSize as + totalSize bs) := by
  rw [size64?_eq, size64?_eq, ← fit64?_bind]
  refine congrArg _ (funext fun n => ?_)
  rw [Nat.add_comm, ← fit64?_bind]
  exact congrArg _ (funext fun m => congrArg fit64? (Nat.add_comm _ _))

theorem totalSizeSum (as : List Artifact) : totalSize as = (as.map fun a => a.size.toNat).sum := by
  simp [totalSize, List.sum, List.foldr_map]

end Artifact

namespace Decision
open Artifact

theorem orderPerm (p : Policy) (us : List Artifact) : (order p us).Perm us := by
  cases p with
  | none => exact .refl us
  | simple count => exact newestFirstPerm us
  | smart d w m y => exact .refl us

theorem decidedPerm (as : List Artifact) (p : Policy) :
    ((evaluate as p).keep ++ (evaluate as p).delete).Perm (firsts as) := by
  rw [evaluateFilter]
  have split := List.filter_append_perm
    (fun a => !(reasonsOf (firsts as) p a).isEmpty) (order p (firsts as))
  simp only [Bool.not_not] at split
  exact split.trans (orderPerm p _)

theorem decidedIdsNodup (as : List Artifact) (p : Policy) :
    (((evaluate as p).keep ++ (evaluate as p).delete).map Artifact.id).Nodup :=
  ((decidedPerm as p).map Artifact.id).nodup_iff.mpr (firstsIdsNodup as)

theorem deleteIdsNodup (as : List Artifact) (p : Policy) :
    ((evaluate as p).delete.map Artifact.id).Nodup := by
  have both := decidedIdsNodup as p
  rw [List.map_append] at both
  exact both.of_append_right

theorem decidedNames {as : List Artifact} (p : Policy) {a : Artifact} (member : a ∈ as) :
    a.id ∈ (evaluate as p).keep.map Artifact.id ∨ a.id ∈ (evaluate as p).delete.map Artifact.id := by
  have first := ((decidedPerm as p).map Artifact.id).mem_iff.mpr (firstsNames member)
  rwa [List.map_append, List.mem_append] at first

theorem decidedSizes (as : List Artifact) (p : Policy) :
    (evaluate as p).keptSize + (evaluate as p).reclaimedSize =
      ((firsts as).map fun a => a.size.toNat).sum := by
  rw [← ((decidedPerm as p).map fun a => a.size.toNat).sum_nat, List.map_append, List.sum_append,
    ← totalSizeSum, ← totalSizeSum]
  rfl

/-- The backups to keep and those to delete are together the first backups of each name, none of
them twice; their sizes add up, and they do so in 64 bits exactly if the whole sum fits. -/
theorem decidedPartition (as : List Artifact) (p : Policy) :
    let r := evaluate as p
    let total := ((newPlaces as).map fun x => x.1.size.toNat).sum
    (r.keep ++ r.delete).Perm ((newPlaces as).map Prod.fst) ∧
      ((r.keep ++ r.delete).map Artifact.id).Nodup ∧
      r.keptSize + r.reclaimedSize = total ∧
      (do add64? (← size64? r.keep) (← size64? r.delete)) = fit64? total := by
  intro r total
  have sizes : r.keptSize + r.reclaimedSize = total := by
    rw [decidedSizes, firstsPlaces, List.map_map]
    rfl
  refine ⟨firstsPlaces as ▸ decidedPerm as p, decidedIdsNodup as p, sizes, ?_⟩
  rw [← sizes]
  exact addedTotals r.keep r.delete

end Decision
end BackupRotation
