import BackupRotation.Proofs.Reasons
/-! Larger counts keep more. A count only cuts ranks or windows off at the end and moves none, so the reasons
under smaller counts are those of the reasons under larger ones that the smaller counts still grant. -/
namespace BackupRotation

namespace Policy

/-- Two policies for the newest few or two rotations, no count of the first above that of the second. -/
inductive AtMost : Policy → Policy → Prop
  | simple {m n : UInt32} (fewer : m ≤ n) : AtMost (.simple m) (.simple n)
  | smart {d w m y d' w' m' y' : UInt32}
      (fewer : ∀ t, (smart d w m y).countOf t ≤ (smart d' w' m' y').countOf t) :
      AtMost (.smart d w m y) (.smart d' w' m' y')

/-- The reasons that the kind of a policy and its counts allow for. -/
def grants (p : Policy) : Reason → Bool
  | .keepAll => p = .none
  | .recent rank =>
    match p with
    | .simple count => rank < count.toNat
    | _ => false
  | .slot t i => i < (p.countOf t).toNat

end Policy

namespace Decision
open Artifact

theorem flatMapFilter {α β : Type} {f : α → List β} {q : α → Bool} {xs : List α}
    (idle : ∀ x ∈ xs, q x = false → f x = []) : (xs.filter q).flatMap f = xs.flatMap f := by
  induction xs with
  | nil => rfl
  | cons x xs ih =>
    have rest := ih fun z hz => idle z (List.mem_cons_of_mem _ hz)
    by_cases hx : q x = true
    · rw [List.filter_cons_of_pos hx, List.flatMap_cons, List.flatMap_cons, rest]
    · have none := idle x List.mem_cons_self (Bool.eq_false_iff.mpr hx)
      rw [List.filter_cons_of_neg hx, List.flatMap_cons, none, List.nil_append, rest]

/-- Tiers without a count fill no windows, so they need not be left out. -/
theorem slotReasonsAll (us : List Artifact) (p : Policy) (anchor : Instant) (position : Nat) :
    slotReasons (tierSlots us p anchor) position =
      Tier.all.flatMap fun t =>
        (Slot.won us anchor t (p.countOf t).toNat position).map fun i => .slot t i := by
  have none (t : Tier) : Slot.won us anchor t 0 position = [] :=
    List.eq_nil_iff_forall_not_mem.mpr fun i won => Nat.not_lt_zero i (Slot.memWon.mp won).1
  rw [slotReasonsWon, Policy.enabledTiers, flatMapFilter, List.flatMap_map]
  rintro ⟨t, count⟩ _ zero
  obtain rfl : count = 0 := by simpa using zero
  simp [none]

variable {p q : Policy}

theorem reasonsCut (larger : p.AtMost q) (us : List Artifact) (a : Artifact) :
    reasonsOf us p a = (reasonsOf us q a).filter p.grants := by
  cases larger with
  | @simple m n fewer =>
    have counts : m.toNat ≤ n.toNat := UInt32.le_iff_toNat_le.mp fewer
    simp only [reasonsOf]
    by_cases below : (newestFirst us).idxOf a < m.toNat
    · have below' : (newestFirst us).idxOf a < n.toNat := Nat.lt_of_lt_of_le below counts
      simp [below, below', Policy.grants]
    · rw [if_neg below]
      split
      · simp [below, Policy.grants]
      · rfl
  | smart fewer =>
    simp only [reasonsOf]
    cases anchor? us with
    | none => rfl
    | some anchor =>
      simp only
      rw [slotReasonsAll, slotReasonsAll, List.filter_flatMap]
      refine List.flatMap_congr fun t _ => ?_
      rw [Slot.wonBelow (UInt32.le_iff_toNat_le.mp (fewer t)), List.filter_map]
      rfl

theorem orderSame (larger : p.AtMost q) (us : List Artifact) : order p us = order q us := by
  cases larger <;> rfl

theorem keepGrows (larger : p.AtMost q) (as : List Artifact) :
    (evaluate as p).keep.Sublist (evaluate as q).keep := by
  rw [evaluateFilter, evaluateFilter, orderSame larger]
  refine List.monotone_filter_right _ fun a kept => ?_
  rw [reasonsCut larger] at kept
  cases given : reasonsOf (firsts as) q a with
  | nil => simp [given] at kept
  | cons r rs => rfl

/-- Under larger counts all is kept that smaller ones keep, for the same reasons and perhaps for more: those are
the reasons, in their order, that the smaller counts do not grant. -/
theorem largerKeepsMore (as : List Artifact) (larger : p.AtMost q) :
    (evaluate as p).keep.Sublist (evaluate as q).keep ∧
      (∀ a ∈ (evaluate as p).keep, a.id ∉ (evaluate as q).delete.map Artifact.id) ∧
      List.Forall₂ (fun v w => v.artifact = w.artifact ∧ v.reasons.Sublist w.reasons ∧
        v.reasons = w.reasons.filter p.grants) (explain as p) (explain as q) := by
  have grows := keepGrows larger as
  refine ⟨grows, fun a kept named => ?_, ?_⟩
  · obtain ⟨d, deleted, same⟩ := List.mem_map.mp named
    exact decidedApart (grows.subset kept) deleted same
  · rw [explainMap, explainMap, List.forall₂_map_left_iff, List.forall₂_map_right_iff, List.forall₂_same]
    intro a _
    have cut := reasonsCut larger (firsts as) a
    exact ⟨rfl, cut ▸ List.filter_sublist, cut⟩

theorem largerKeepsMoreEnabled :
    let as : List Artifact := [⟨"a", 1, ⟨0, 0, by decide⟩⟩, ⟨"b", 2, ⟨90000, 0, by decide⟩⟩,
      ⟨"c", 3, ⟨90000, 0, by decide⟩⟩, ⟨"d", 4, ⟨700000, 0, by decide⟩⟩]
    let p := Policy.smart 1 0 0 1
    let q := Policy.smart 1 4294967295 0 1
    p.AtMost q ∧ (evaluate as p).keep.map Artifact.id = ["d"] ∧
      (evaluate as q).keep.map Artifact.id = ["b", "d"] ∧
      (evaluate as p).keep.Sublist (evaluate as q).keep := by
  intro as p q
  have larger : p.AtMost q := .smart fun t => by cases t <;> decide
  exact ⟨larger, by decide +kernel, by decide +kernel, (largerKeepsMore as larger).1⟩

end Decision
end BackupRotation
