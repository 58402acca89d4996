import BackupRotation.Proofs.PartialDeletion
import BackupRotation.Proofs.Verdicts
import Mathlib.Tactic
/-! Keeping the newest few after each batch of backups. No later run keeps what an earlier one deleted, so
that it is gone makes no difference; nor does it that the survivors stand newest first when the next batch
joins them, since backups of the same time stay in the order in which they came. -/
namespace BackupRotation.Decision
open Artifact

theorem takeFilter {α : Type} {p : α → Bool} {xs : List α} {n : Nat} {a : α} (early : a ∈ xs.take n)
    (stays : p a = true) : a ∈ (xs.filter p).take n := by
  induction xs generalizing n with
  | nil => simp at early
  | cons x xs ih =>
    cases n with
    | zero => simp at early
    | succ n =>
      rcases List.mem_cons.mp early with rfl | later
      · simp [stays]
      · by_cases own : p x = true
        · simp [own, ih later]
        · rw [List.filter_cons_of_neg own]
          exact List.take_subset_take_left _ (Nat.le_succ n) (ih later)

/-- What is left when each batch joins what the run before it left, and a run decides on both. -/
def rotatedBatches (p : Policy) (batches : List (List Artifact)) : List Artifact :=
  batches.foldl (fun survivors batch => (evaluate (survivors ++ batch) p).keep) []

section Step
variable {as bs : List Artifact} {count : UInt32} (distinct : ((as ++ bs).map Artifact.id).Nodup)
include distinct

theorem firstPart : (as ++ bs).filter (· ∈ as) = as := by
  have later : bs.filter (· ∈ as) = [] := by
    refine List.filter_eq_nil_iff.mpr fun b after => ?_
    have apart := (List.nodup_append.mp distinct.of_map).2.2
    simpa using fun before => apart b before b after rfl
  rw [List.filter_append, later, List.append_nil, List.filter_eq_self]
  exact fun a member => decide_eq_true member

theorem firstDistinct : (as.map Artifact.id).Nodup := (List.map_append ▸ distinct).of_append_left

theorem keepEarlier {a : Artifact} (member : a ∈ as)
    (kept : a ∈ (evaluate (as ++ bs) (.simple count)).keep) : a ∈ (evaluate as (.simple count)).keep := by
  rw [keepDistinct distinct] at kept
  rw [keepDistinct (firstDistinct distinct), ← firstPart distinct, newestFirstFilter]
  exact takeFilter kept (decide_eq_true member)

theorem keepSorted : (evaluate (newestFirst as ++ bs) (.simple count)).keep =
    (evaluate (as ++ bs) (.simple count)).keep := by
  have perm : (newestFirst as ++ bs).Perm (as ++ bs) := (newestFirstPerm as).append_right bs
  have distinct' := (perm.map Artifact.id).nodup_iff.mpr distinct
  rw [keepDistinct distinct, keepDistinct distinct', newestFirstAgain]

theorem deletedLater {a : Artifact} (kept : a ∈ (evaluate (as ++ bs) (.simple count)).keep) :
    a.id ∉ (evaluate as (.simple count)).delete.map Artifact.id := by
  intro named
  obtain ⟨d, deleted, same⟩ := List.mem_map.mp named
  have old : d ∈ as := (firstsSublist as).subset (memDelete.mp deleted).1
  have inside : a ∈ as ++ bs := (firstsSublist _).subset (memKeep.mp kept).1
  obtain rfl := List.inj_on_of_nodup_map distinct (List.mem_append_left bs old) inside same
  exact decidedApart (keepEarlier distinct old kept) deleted rfl

theorem withoutDeleted :
    let r := evaluate as (.simple count)
    (newestFirst as ++ bs).filter (fun a => a.id ∉ r.delete.map Artifact.id) = r.keep ++ bs := by
  intro r
  have sorted : newestFirst as = r.keep ++ r.delete := by
    rw [decidedSimple, firstsOfNodup (firstDistinct distinct)]
  have names := decidedIdsNodup as (.simple count)
  rw [List.map_append] at names distinct
  have spared : r.keep.filter (fun a => a.id ∉ r.delete.map Artifact.id) = r.keep := by
    refine List.filter_eq_self.mpr fun a kept => decide_eq_true fun named => ?_
    exact (List.nodup_append.mp names).2.2 _ (List.mem_map_of_mem kept) _ named rfl
  have taken : r.delete.filter (fun a => a.id ∉ r.delete.map Artifact.id) = [] := by
    refine List.filter_eq_nil_iff.mpr fun d deleted => ?_
    simpa using ⟨d, deleted, rfl⟩
  have new : bs.filter (fun a => a.id ∉ r.delete.map Artifact.id) = bs := by
    refine List.filter_eq_self.mpr fun b after => decide_eq_true fun named => ?_
    obtain ⟨d, deleted, same⟩ := List.mem_map.mp named
    have old : d ∈ as := (firstsSublist as).subset (memDelete.mp deleted).1
    exact (List.nodup_append.mp distinct).2.2 _ (List.mem_map_of_mem old) _ (List.mem_map_of_mem after) same
  rw [sorted, List.filter_append, List.filter_append, spared, taken, new, List.append_nil]

theorem keepBatch : (evaluate ((evaluate as (.simple count)).keep ++ bs) (.simple count)).keep =
    (evaluate (as ++ bs) (.simple count)).keep := by
  classical
  let gone : Set String := {id | id ∈ (evaluate as (.simple count)).delete.map Artifact.id}
  have left : without gone (newestFirst as ++ bs) = (evaluate as (.simple count)).keep ++ bs := by
    rw [← withoutDeleted distinct]
    exact List.filter_congr fun a _ => decide_eq_decide.mpr Iff.rfl
  have kept : ∀ a ∈ (evaluate (newestFirst as ++ bs) (.simple count)).keep, a.id ∉ gone := by
    rw [keepSorted distinct]
    exact fun a kept => deletedLater distinct kept
  rw [← left, keepWithout kept, keepSorted distinct]

end Step

theorem batchesTogether {batches : List (List Artifact)}
    (distinct : (batches.flatten.map Artifact.id).Nodup) (count : UInt32) :
    rotatedBatches (.simple count) batches = (evaluate batches.flatten (.simple count)).keep := by
  induction batches using List.reverseRecOn with
  | nil => simp [rotatedBatches, keepSimple, firsts, firstsAfter, newestFirst]
  | append_singleton batches batch ih =>
    rw [List.flatten_concat] at distinct ⊢
    have before := ih (List.map_append ▸ distinct).of_append_left
    have last : rotatedBatches (.simple count) (batches ++ [batch]) =
        (evaluate (rotatedBatches (.simple count) batches ++ batch) (.simple count)).keep := by
      simp only [rotatedBatches, List.foldl_append, List.foldl_cons, List.foldl_nil]
    rw [last, before, keepBatch distinct]

theorem batchesTogetherTied :
    let batches : List (List Artifact) := [[⟨"b", 1, ⟨5, 0, by decide⟩⟩, ⟨"a", 2, ⟨5, 0, by decide⟩⟩],
      [⟨"d", 3, ⟨4, 0, by decide⟩⟩, ⟨"c", 4, ⟨5, 0, by decide⟩⟩], [], [⟨"e", 5, ⟨9, 0, by decide⟩⟩]]
    (batches.flatten.map Artifact.id).Nodup ∧
      rotatedBatches (.simple 3) batches = (evaluate batches.flatten (.simple 3)).keep ∧
      (rotatedBatches (.simple 3) batches).map Artifact.id = ["e", "b", "a"] := by
  intro batches
  have distinct : (batches.flatten.map Artifact.id).Nodup := by decide
  exact ⟨distinct, batchesTogether distinct 3, by cbv⟩

end BackupRotation.Decision
