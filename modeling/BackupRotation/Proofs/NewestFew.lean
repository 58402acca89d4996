import BackupRotation.Proofs.Verdicts
/-! The newest few, as a stable sort: newest first, and of two of one time the one first that stands first
in the list. Only one list is sorted so, and a decision for the newest few cuts it in two. -/
namespace BackupRotation

namespace Artifact
variable {us bs : List Artifact}

/-- The newer backup before the older, and of two of one time the one that stands first in `us`. -/
def Precedes (us : List Artifact) (a b : Artifact) : Prop :=
  b.created < a.created ∨ a.created = b.created ∧ [a, b].Sublist us

structure StablySorted (us bs : List Artifact) : Prop where
  perm : bs.Perm us
  ordered : bs.Pairwise (Precedes us)

theorem newestFirstStable (us : List Artifact) : StablySorted us (newestFirst us) := by
  have ordered : (newestFirst us).Pairwise (Precedes us) := by
    apply List.pairwise_iff_forall_sublist.mpr
    intro a b inside
    have later := List.pairwise_iff_forall_sublist.mp (newestFirstSorted us) inside
    by_cases newer : b.created < a.created
    · exact .inl newer
    · have tied : a.created = b.created := Instant.le_antisymm newer later
      exact .inr ⟨tied, tiedSublist tied inside⟩
  exact ⟨newestFirstPerm us, ordered⟩

theorem oneWay (distinct : us.Nodup) {a b : Artifact} (forth : [a, b].Sublist us) :
    ¬ [b, a].Sublist us := by
  intro back
  obtain ⟨xs, ys, rfl, ha, hb⟩ := List.cons_sublist_iff.mp forth
  obtain ⟨xs', ys', same, hb', ha'⟩ := List.cons_sublist_iff.mp back
  have apart := (List.nodup_append.mp distinct).2.2
  rw [List.singleton_sublist] at hb ha'
  -- the cut behind `a` lies before the cut behind `b`, or the other way round
  rcases List.append_eq_append_iff.mp same with ⟨zs, rfl, rfl⟩ | ⟨zs, rfl, rfl⟩
  · exact apart a ha a (List.mem_append_right zs ha') rfl
  · exact apart b (List.mem_append_left zs hb') b hb rfl

theorem precedesAntisymm (distinct : us.Nodup) {a b : Artifact} (forth : Precedes us a b)
    (back : Precedes us b a) : a = b := by
  rcases forth with newer | ⟨tied, forth⟩
  · rcases back with older | ⟨tied, _⟩
    · exact absurd (Instant.lt_trans newer older) (Instant.lt_irrefl _)
    · exact absurd newer (tied ▸ Instant.lt_irrefl _)
  · rcases back with older | ⟨_, back⟩
    · exact absurd older (tied ▸ Instant.lt_irrefl _)
    · exact absurd back (oneWay distinct forth)

theorem stablySortedIff (distinct : us.Nodup) : StablySorted us bs ↔ bs = newestFirst us := by
  constructor
  · intro sorted
    have whole := newestFirstStable us
    exact (sorted.perm.trans whole.perm.symm).eq_of_pairwise
      (fun a b _ _ => precedesAntisymm distinct) sorted.ordered whole.ordered
  · intro same
    exact same ▸ newestFirstStable us

end Artifact

namespace Decision
open Artifact

/-- Those to keep and those to delete, one after the other, are the first backups of each name stably
sorted, and as many of the first of them as the count allows are kept. -/
theorem simpleKeepsFirst (as : List Artifact) (count : UInt32) :
    let us := (newPlaces as).map Prod.fst
    let r := evaluate as (.simple count)
    (∀ bs, StablySorted us bs ↔ bs = r.keep ++ r.delete) ∧
      r.keep = (r.keep ++ r.delete).take (min count.toNat us.length) ∧
      r.keep.length = min count.toNat us.length := by
  intro us r
  have unique : us = firsts as := (firstsPlaces as).symm
  have whole : r.keep ++ r.delete = newestFirst us := unique ▸ decidedSimple
  have long : (newestFirst us).length = us.length := (newestFirstPerm us).length_eq
  have kept : r.keep = (newestFirst us).take (min count.toNat us.length) := by
    rw [← long, ← List.take_eq_take_min, unique]
    exact keepSimple
  have distinct : us.Nodup := unique ▸ firstsNodup as
  rw [whole]
  refine ⟨fun bs => stablySortedIff distinct, kept, ?_⟩
  rw [kept, List.length_take, long]
  omega

end Decision
end BackupRotation
