import BackupRotation.Artifact
import Mathlib.Data.List.Nodup
/-! Backups in the order of their times, newest first. The order is stable, so leaving backups out
leaves the others as they stand. -/
namespace BackupRotation

theorem cutUnique {α : Type} {le : α → α → Bool} {a : α} {before after before' after' : List α}
    (same : before ++ after = before' ++ after')
    (left : ∀ b ∈ before, !le a b) (right : ∀ b ∈ after, le a b)
    (left' : ∀ b ∈ before', !le a b) (right' : ∀ b ∈ after', le a b) :
    before = before' ∧ after = after' := by
  have cut {xs ys : List α} (hx : ∀ b ∈ xs, !le a b) (hy : ∀ b ∈ ys, le a b) :
      (xs ++ ys).filter (fun b => !le a b) = xs ∧ (xs ++ ys).filter (le a) = ys := by
    have none : ys.filter (fun b => !le a b) = [] :=
      List.filter_eq_nil_iff.mpr fun b hb => by simp [hy b hb]
    have nothing : xs.filter (le a) = [] :=
      List.filter_eq_nil_iff.mpr fun b hb => by simpa using hx b hb
    rw [List.filter_append, List.filter_append, none, nothing, List.filter_eq_self.mpr hx,
      List.filter_eq_self.mpr hy]
    simp
  have first := cut left right
  have second := cut left' right'
  rw [same] at first
  exact ⟨first.1.symm.trans second.1, first.2.symm.trans second.2⟩

theorem filterMergeSort {α : Type} {le : α → α → Bool} (trans : ∀ a b c, le a b → le b c → le a c)
    (total : ∀ a b, le a b || le b a) (p : α → Bool) (xs : List α) :
    (xs.mergeSort le).filter p = (xs.filter p).mergeSort le := by
  induction xs with
  | nil => simp
  | cons a xs ih =>
    -- the head goes between those it does not go before and those it does, with and without the filter
    obtain ⟨before, after, whole, rest, left⟩ := List.mergeSort_cons trans total a xs
    have sorted := List.pairwise_mergeSort trans total (a :: xs)
    rw [whole] at sorted
    have right : ∀ b ∈ after, le a b :=
      (List.pairwise_cons.mp (List.pairwise_append.mp sorted).2.1).1
    rw [rest, List.filter_append] at ih
    rw [whole, List.filter_append]
    by_cases ha : p a = true
    · obtain ⟨before', after', whole', rest', left'⟩ :=
        List.mergeSort_cons trans total a (xs.filter p)
      have sorted' := List.pairwise_mergeSort trans total (a :: xs.filter p)
      rw [whole'] at sorted'
      have right' : ∀ b ∈ after', le a b :=
        (List.pairwise_cons.mp (List.pairwise_append.mp sorted').2.1).1
      rw [rest'] at ih
      have cut := cutUnique ih
        (fun b hb => left b (List.mem_filter.mp hb).1) (fun b hb => right b (List.mem_filter.mp hb).1)
        left' right'
      simp only [List.filter_cons, ha, if_true]
      rw [whole', cut.1, cut.2]
    · simp only [List.filter_cons, ha]
      exact ih

namespace Instant

theorem le_refl (a : Instant) : a ≤ a := lt_irrefl a

theorem leOfLt {a b : Instant} (h : a < b) : a ≤ b := fun k => lt_irrefl a (lt_trans h k)

theorem ltOfNotLe {a b : Instant} (h : ¬ a ≤ b) : b < a := Decidable.not_not.mp h

end Instant

namespace Artifact

theorem newerTrans (a b c : Artifact) (h : decide (b.created ≤ a.created) = true)
    (k : decide (c.created ≤ b.created) = true) : decide (c.created ≤ a.created) = true :=
  decide_eq_true (Instant.le_trans (of_decide_eq_true k) (of_decide_eq_true h))

theorem newerTotal (a b : Artifact) :
    (decide (b.created ≤ a.created) || decide (a.created ≤ b.created)) = true := by
  simpa using Instant.le_total b.created a.created

theorem newestFirstSorted (as : List Artifact) :
    (newestFirst as).Pairwise fun a b => b.created ≤ a.created := by
  have sorted := List.pairwise_mergeSort newerTrans newerTotal as
  simpa only [newestFirst, decide_eq_true_eq] using sorted

theorem newestFirstFilter (p : Artifact → Bool) (as : List Artifact) :
    newestFirst (as.filter p) = (newestFirst as).filter p :=
  (filterMergeSort newerTrans newerTotal p as).symm

theorem memNewestFirst {as : List Artifact} {a : Artifact} : a ∈ newestFirst as ↔ a ∈ as :=
  (newestFirstPerm as).mem_iff

theorem newestFirstTied (t : Instant) (as : List Artifact) :
    (newestFirst as).filter (fun a => a.created = t) = as.filter fun a => a.created = t := by
  rw [← newestFirstFilter, newestFirst]
  refine List.mergeSort_of_pairwise (List.pairwise_of_forall_mem_list fun a ha b hb => ?_)
  have timeA : a.created = t := by simpa using (List.mem_filter.mp ha).2
  have timeB : b.created = t := by simpa using (List.mem_filter.mp hb).2
  rw [timeA, timeB]
  exact decide_eq_true (Instant.le_refl t)

theorem tiedSublist {as : List Artifact} {a b : Artifact} (tied : a.created = b.created)
    (inside : [a, b].Sublist (newestFirst as)) : [a, b].Sublist as := by
  have both : [a, b].filter (fun c => c.created = b.created) = [a, b] := by simp [tied]
  have part := inside.filter fun c => c.created = b.created
  rw [both, newestFirstTied] at part
  exact part.trans List.filter_sublist

section Tied
variable {as bs : List Artifact}

theorem membersTied (tied : ∀ t, as.filter (fun a => a.created = t) = bs.filter fun a => a.created = t)
    {a : Artifact} : a ∈ as ↔ a ∈ bs := by
  have own := congrArg (a ∈ ·) (tied a.created)
  simpa using own

/-- A sorted list is known from what it holds of each time. -/
theorem sortedTied (sorted : as.Pairwise fun a b => b.created ≤ a.created)
    (sorted' : bs.Pairwise fun a b => b.created ≤ a.created)
    (tied : ∀ t, as.filter (fun a => a.created = t) = bs.filter fun a => a.created = t) : as = bs := by
  induction as generalizing bs with
  | nil =>
    cases bs with
    | nil => rfl
    | cons b bs => simpa using (membersTied tied).mpr List.mem_cons_self
  | cons a as ih =>
    cases bs with
    | nil => simpa using (membersTied tied).mp List.mem_cons_self
    | cons b bs =>
      obtain ⟨top, rest⟩ := List.pairwise_cons.mp sorted
      obtain ⟨top', rest'⟩ := List.pairwise_cons.mp sorted'
      have newest : ∀ c ∈ a :: as, c.created ≤ a.created :=
        List.forall_mem_cons.mpr ⟨Instant.le_refl _, top⟩
      have newest' : ∀ c ∈ b :: bs, c.created ≤ b.created :=
        List.forall_mem_cons.mpr ⟨Instant.le_refl _, top'⟩
      have same : a.created = b.created := Instant.le_antisymm
        (newest' a ((membersTied tied).mp List.mem_cons_self))
        (newest b ((membersTied tied).mpr List.mem_cons_self))
      -- the heads are of one time, so each is the first that its list holds of that time
      have heads := tied b.created
      simp only [same, List.filter_cons_of_pos, decide_true] at heads
      obtain ⟨rfl, _⟩ := List.cons.inj heads
      refine congrArg (a :: ·) (ih rest rest' fun t => ?_)
      have both := tied t
      simp only [List.filter_cons] at both
      split at both
      · exact (List.cons.inj both).2
      · exact both

end Tied

theorem newestFirstAgain (as bs : List Artifact) :
    newestFirst (newestFirst as ++ bs) = newestFirst (as ++ bs) := by
  refine sortedTied (newestFirstSorted _) (newestFirstSorted _) fun t => ?_
  simp only [newestFirstTied, List.filter_append]

end Artifact
end BackupRotation
