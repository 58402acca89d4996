import BackupRotation.Artifact
import Mathlib.Data.List.Nodup
/-! The first backup of each name: those at the places whose name no earlier place has, in the order
of the list. No name is left twice, a list without repeated names stays as it is, and taking names
away before or after makes no difference. -/
namespace BackupRotation.Artifact

theorem firstsAfterFresh {seen : List String} {as : List Artifact} {a : Artifact}
    (h : a ∈ firstsAfter seen as) : a.id ∉ seen := by
  induction as generalizing seen with
  | nil => simp [firstsAfter] at h
  | cons b as ih =>
    simp only [firstsAfter] at h
    split at h
    · exact ih h
    · rename_i fresh
      rcases List.mem_cons.mp h with rfl | h
      · exact fresh
      · intro seenBefore
        exact ih h (List.mem_cons_of_mem _ seenBefore)

theorem firstsAfterNodup (seen : List String) (as : List Artifact) :
    ((firstsAfter seen as).map Artifact.id).Nodup := by
  induction as generalizing seen with
  | nil => simp [firstsAfter]
  | cons a as ih =>
    simp only [firstsAfter]
    split
    · exact ih seen
    · refine List.nodup_cons.mpr ⟨?_, ih _⟩
      intro repeated
      obtain ⟨b, hb, same⟩ := List.mem_map.mp repeated
      exact firstsAfterFresh hb (by simp [same])

theorem firstsIdsNodup (as : List Artifact) : ((firsts as).map Artifact.id).Nodup :=
  firstsAfterNodup [] as

theorem firstsNodup (as : List Artifact) : (firsts as).Nodup := (firstsIdsNodup as).of_map

theorem firstsAfterOfNodup {seen : List String} {as : List Artifact}
    (fresh : ∀ a ∈ as, a.id ∉ seen) (distinct : (as.map Artifact.id).Nodup) :
    firstsAfter seen as = as := by
  induction as generalizing seen with
  | nil => rfl
  | cons a as ih =>
    obtain ⟨new, distinct⟩ := List.nodup_cons.mp distinct
    have rest : firstsAfter (a.id :: seen) as = as := by
      refine ih ?_ distinct
      intro b hb
      have other : b.id ≠ a.id := fun same => new (List.mem_map.mpr ⟨b, hb, same⟩)
      simp [other, fresh b (List.mem_cons_of_mem _ hb)]
    simp [firstsAfter, fresh a List.mem_cons_self, rest]

theorem firstsOfNodup {as : List Artifact} (distinct : (as.map Artifact.id).Nodup) :
    firsts as = as := firstsAfterOfNodup (by simp) distinct

theorem firstsAfterNames {seen : List String} {as : List Artifact} {a : Artifact} (member : a ∈ as)
    (fresh : a.id ∉ seen) : a.id ∈ (firstsAfter seen as).map Artifact.id := by
  induction as generalizing seen with
  | nil => simp at member
  | cons b as ih =>
    by_cases same : a.id = b.id
    · simp [firstsAfter, ← same, fresh]
    · have rest : a ∈ as := (List.mem_cons.mp member).resolve_left fun eq => same (eq ▸ rfl)
      have fresh' : a.id ∉ b.id :: seen := by simp [same, fresh]
      simp only [firstsAfter]
      split
      · exact ih rest fresh
      · exact List.mem_cons_of_mem _ (ih rest fresh')

theorem firstsNames {as : List Artifact} {a : Artifact} (member : a ∈ as) :
    a.id ∈ (firsts as).map Artifact.id := firstsAfterNames member (by simp)

/-- The backups whose name no backup before them has, each with its place in the list. -/
def newPlaces (as : List Artifact) : List (Artifact × Nat) :=
  as.zipIdx.filter fun x => x.1.id ∉ (as.take x.2).map Artifact.id

theorem firstsAfterPlaces (seen : List String) (as : List Artifact) : firstsAfter seen as =
    (as.zipIdx.filter fun x => x.1.id ∉ seen ++ (as.take x.2).map Artifact.id).map Prod.fst := by
  induction as generalizing seen with
  | nil => rfl
  | cons a as ih =>
    have rest (names : List String) (same : ∀ id, id ∈ names ↔ id ∈ a.id :: seen) :
        firstsAfter names as = (((as.zipIdx 1).filter fun x =>
          x.1.id ∉ seen ++ ((a :: as).take x.2).map Artifact.id).map Prod.fst) := by
      rw [ih names, List.zipIdx_succ, List.filter_map, List.map_map]
      refine congrArg (List.map Prod.fst) (List.filter_congr fun x _ => ?_)
      simp [same, Bool.and_left_comm, Bool.and_assoc]
    rw [List.zipIdx_cons, firstsAfter]
    by_cases old : a.id ∈ seen
    · rw [if_pos old, rest seen (by simp [old])]
      simp [old]
    · rw [if_neg old, rest (a.id :: seen) (fun _ => Iff.rfl)]
      simp [old]

theorem firstsPlaces (as : List Artifact) : firsts as = (newPlaces as).map Prod.fst :=
  firstsAfterPlaces [] as

theorem firstsAfterFilter (stays : String → Bool) {seen kept : List String} (as : List Artifact)
    (agree : ∀ id, stays id = true → (id ∈ kept ↔ id ∈ seen)) :
    firstsAfter kept (as.filter fun a => stays a.id) =
      (firstsAfter seen as).filter fun a => stays a.id := by
  induction as generalizing seen kept with
  | nil => rfl
  | cons a as ih =>
    by_cases ha : stays a.id = true
    · by_cases old : a.id ∈ seen
      · simp [firstsAfter, ha, old, (agree a.id ha).mpr old, ih agree]
      · have new : a.id ∉ kept := fun h => old ((agree a.id ha).mp h)
        have next : ∀ id, stays id = true → (id ∈ a.id :: kept ↔ id ∈ a.id :: seen) := by
          intro id hid
          simp [agree id hid]
        simp [firstsAfter, ha, old, new, ih next]
    · by_cases old : a.id ∈ seen
      · simp [firstsAfter, ha, old, ih agree]
      · have next : ∀ id, stays id = true → (id ∈ kept ↔ id ∈ a.id :: seen) := by
          intro id hid
          have other : id ≠ a.id := fun same => ha (same ▸ hid)
          simp [agree id hid, other]
        simp [firstsAfter, ha, old, ih next]

theorem firstsFilter (stays : String → Bool) (as : List Artifact) :
    firsts (as.filter fun a => stays a.id) = (firsts as).filter fun a => stays a.id :=
  firstsAfterFilter stays as (by simp)

end BackupRotation.Artifact
