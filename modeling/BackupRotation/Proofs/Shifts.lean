import BackupRotation.Proofs.Ages
import BackupRotation.Proofs.Retiming
/-! Backups whose times all lie later, or all earlier, by one number of nanoseconds. Without leap seconds their
order and their ages from each other stay the same, and so does every decision. -/
namespace BackupRotation

namespace Instant

/-- Nanoseconds since 1970 of a time that is no leap second. -/
def sinceEpoch (t : Instant) : Int := t.seconds * 1000000000 + t.nanos

/-- The time `n` nanoseconds after one that is no leap second, if that is a point in time. -/
def shift? (n : Int) (t : Instant) : Option Instant :=
  let total := t.sinceEpoch + n
  ofUnix? (total / 1000000000) (total % 1000000000).toNat

variable {n : Int} {s t u v : Instant}

theorem shiftIff : t.shift? n = some u ↔ ¬ u.IsLeap ∧ u.sinceEpoch = t.sinceEpoch + n := by
  unfold shift? ofUnix? IsLeap sinceEpoch
  simp only
  generalize t.seconds * 1000000000 + t.nanos + n = total
  constructor
  · intro h
    split at h
    · cases Option.some.inj h
      simp only
      omega
    · contradiction
  · intro h
    have seconds : total / 1000000000 = u.seconds := by omega
    have nanos : (total % 1000000000).toNat = u.nanos := by omega
    simp only [seconds, nanos, u.admissible, dite_true]

theorem beforeIff (hs : ¬ s.IsLeap) (ht : ¬ t.IsLeap) : s < t ↔ s.sinceEpoch < t.sinceEpoch := by
  change Before s t ↔ _
  unfold Before sinceEpoch
  unfold IsLeap at hs ht
  omega

theorem elapsedSince (hs : ¬ s.IsLeap) (ht : ¬ t.IsLeap) : elapsed s t = t.sinceEpoch - s.sinceEpoch := by
  rw [elapsedWhole hs ht]
  unfold sinceEpoch
  omega

section Shifted
variable (hs : ¬ s.IsLeap) (ht : ¬ t.IsLeap) (su : s.shift? n = some u) (tv : t.shift? n = some v)
include hs ht su tv

theorem shiftOrder : u < v ↔ s < t := by
  obtain ⟨hu, later⟩ := shiftIff.mp su
  obtain ⟨hv, later'⟩ := shiftIff.mp tv
  rw [beforeIff hu hv, beforeIff hs ht]
  omega

theorem shiftElapsed : elapsed u v = elapsed s t := by
  obtain ⟨hu, later⟩ := shiftIff.mp su
  obtain ⟨hv, later'⟩ := shiftIff.mp tv
  rw [elapsedSince hu hv, elapsedSince hs ht]
  omega

end Shifted
end Instant

namespace Artifact

def shift? (n : Int) (a : Artifact) : Option Artifact :=
  (a.created.shift? n).map fun t => { a with created := t }

def shifted (n : Int) (a : Artifact) : Artifact := (a.shift? n).getD a

variable {n : Int} {as bs : List Artifact} {a b : Artifact}

theorem shiftSource (shift : a.shift? n = some b) :
    b.id = a.id ∧ a.created.shift? n = some b.created := by
  obtain ⟨t, there, rfl⟩ := Option.map_eq_some_iff.mp shift
  exact ⟨rfl, there⟩

theorem shiftAllIff : as.mapM (shift? n) = some bs ↔
    bs = as.map (shifted n) ∧ ∀ a ∈ as, a.shift? n = some (a.shifted n) := by
  induction as generalizing bs with
  | nil => simp [eq_comm]
  | cons a as ih =>
    rw [List.mapM_cons]
    simp only [bind, Option.bind_eq_some_iff, pure, Option.some.injEq, ih, List.map_cons,
      List.forall_mem_cons]
    constructor
    · intro h
      obtain ⟨b, own, _, ⟨rfl, rest⟩, rfl⟩ := h
      have same : a.shifted n = b := by rw [shifted, own, Option.getD_some]
      exact ⟨by rw [same], by rw [same, own], rest⟩
    · intro h
      obtain ⟨rfl, own, rest⟩ := h
      exact ⟨_, own, _, ⟨rfl, rest⟩, rfl⟩

theorem retimesShifted (plain : ∀ a ∈ as, ¬ a.created.IsLeap)
    (shift : ∀ a ∈ as, a.shift? n = some (a.shifted n)) : Retimes (shifted n) as := by
  have times := fun a member => (shiftSource (shift a member)).2
  refine ⟨fun a member => (shiftSource (shift a member)).1, fun a ha b hb => ?_, fun a ha b hb => ?_⟩
  · exact Instant.shiftOrder (plain a ha) (plain b hb) (times a ha) (times b hb)
  · unfold Instant.elapsedMillis
    rw [Instant.shiftElapsed (plain a ha) (plain b hb) (times a ha) (times b hb)]

end Artifact

namespace Decision
open Artifact

/-- Once all times are shifted alike, the same backups are kept and deleted, in the same order and for the same
reasons: what is kept and what is deleted is that of before, shifted. -/
theorem shiftedSame {as bs : List Artifact} {n : Int} (plain : ∀ a ∈ as, ¬ a.created.IsLeap)
    (shift : as.mapM (Artifact.shift? n) = some bs) (p : Policy) :
    (evaluate bs p).keep.map Artifact.id = (evaluate as p).keep.map Artifact.id ∧
      (evaluate bs p).delete.map Artifact.id = (evaluate as p).delete.map Artifact.id ∧
      (explain bs p).map (fun v => (v.artifact.id, v.reasons)) =
        (explain as p).map (fun v => (v.artifact.id, v.reasons)) ∧
      (evaluate as p).keep.mapM (Artifact.shift? n) = some (evaluate bs p).keep ∧
      (evaluate as p).delete.mapM (Artifact.shift? n) = some (evaluate bs p).delete := by
  obtain ⟨rfl, each⟩ := shiftAllIff.mp shift
  have retimes := retimesShifted plain each
  have decided := evaluateRetimed retimes p
  have inside {a : Artifact} (first : a ∈ firsts as) : a ∈ as := (firstsSublist as).subset first
  have kept : ∀ a ∈ (evaluate as p).keep, a ∈ as := fun a h => inside (memKeep.mp h).1
  have deleted : ∀ a ∈ (evaluate as p).delete, a ∈ as := fun a h => inside (memDelete.mp h).1
  have explained : ∀ v ∈ explain as p, v.artifact ∈ as := fun v h =>
    inside (explainArtifacts as p ▸ List.mem_map_of_mem h)
  rw [decided, explainRetimed retimes]
  simp only [List.map_map]
  refine ⟨?_, ?_, ?_, ?_, ?_⟩
  · exact List.map_congr_left fun a h => retimes.named a (kept a h)
  · exact List.map_congr_left fun a h => retimes.named a (deleted a h)
  · exact List.map_congr_left fun v h => congrArg (·, v.reasons) (retimes.named _ (explained v h))
  · exact shiftAllIff.mpr ⟨rfl, fun a h => each a (kept a h)⟩
  · exact shiftAllIff.mpr ⟨rfl, fun a h => each a (deleted a h)⟩

/-- A day and a nanosecond earlier, which borrows from the second and crosses midnight. -/
theorem shiftedSameBorrow :
    let as : List Artifact := [⟨"a", 1, ⟨86400, 0, by decide⟩⟩, ⟨"b", 2, ⟨0, 0, by decide⟩⟩,
      ⟨"c", 3, ⟨0, 500000, by decide⟩⟩, ⟨"b", 4, ⟨90000, 0, by decide⟩⟩]
    let bs : List Artifact := [⟨"a", 1, ⟨-1, 999999999, by decide⟩⟩,
      ⟨"b", 2, ⟨-86401, 999999999, by decide⟩⟩, ⟨"c", 3, ⟨-86400, 499999, by decide⟩⟩,
      ⟨"b", 4, ⟨3599, 999999999, by decide⟩⟩]
    (∀ a ∈ as, ¬ a.created.IsLeap) ∧ as.mapM (Artifact.shift? (-86400000000001)) = some bs ∧
      (evaluate as (.smart 2 0 0 0)).keep.map Artifact.id = ["a", "b"] ∧
      (evaluate bs (.smart 2 0 0 0)).keep.map Artifact.id = ["a", "b"] := by
  intro as bs
  have plain : ∀ a ∈ as, ¬ a.created.IsLeap := by decide
  have shift : as.mapM (Artifact.shift? (-86400000000001)) = some bs := by decide +kernel
  have kept : (evaluate as (.smart 2 0 0 0)).keep.map Artifact.id = ["a", "b"] := by decide +kernel
  exact ⟨plain, shift, kept, (shiftedSame plain shift _).1.trans kept⟩

end Decision
end BackupRotation
