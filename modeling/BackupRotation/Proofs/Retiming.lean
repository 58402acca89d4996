import BackupRotation.Proofs.Reasons
/-! What a decision sees of the times: which of two is later and how old one is as seen from the other, in whole
milliseconds. Times may change in any way that leaves this as it is, and sizes in any way at all. -/
namespace BackupRotation

namespace Artifact

/-- A change of backups that keeps their names, the order of their times and their ages as seen from each other. -/
structure Retimes (f : Artifact → Artifact) (as : List Artifact) : Prop where
  named : ∀ a ∈ as, (f a).id = a.id
  ordered : ∀ a ∈ as, ∀ b ∈ as, (f a).created < (f b).created ↔ a.created < b.created
  aged : ∀ a ∈ as, ∀ b ∈ as, Instant.elapsedMillis (f a).created (f b).created =
    Instant.elapsedMillis a.created b.created

theorem Retimes.part {f : Artifact → Artifact} {as us : List Artifact} (retimes : Retimes f as)
    (inside : ∀ a ∈ us, a ∈ as) : Retimes f us :=
  ⟨fun a ha => retimes.named a (inside a ha),
    fun a ha b hb => retimes.ordered a (inside a ha) b (inside b hb),
    fun a ha b hb => retimes.aged a (inside a ha) b (inside b hb)⟩

theorem firstsAfterRetimed {f : Artifact → Artifact} {seen : List String} {as : List Artifact}
    (named : ∀ a ∈ as, (f a).id = a.id) : firstsAfter seen (as.map f) = (firstsAfter seen as).map f := by
  induction as generalizing seen with
  | nil => rfl
  | cons a as ih =>
    have rest (names : List String) : firstsAfter names (as.map f) = (firstsAfter names as).map f :=
      ih fun b hb => named b (List.mem_cons_of_mem _ hb)
    simp only [List.map_cons, firstsAfter, named a List.mem_cons_self, rest]
    split <;> rfl

theorem idxOfMap {α β : Type} [DecidableEq α] [DecidableEq β] {f : α → β} {xs : List α} {a : α}
    (apart : ∀ b ∈ xs, f b = f a → b = a) : (xs.map f).idxOf (f a) = xs.idxOf a := by
  induction xs with
  | nil => rfl
  | cons x xs ih =>
    rw [List.map_cons]
    by_cases same : x = a
    · rw [List.idxOf_cons_eq _ same, List.idxOf_cons_eq _ (congrArg f same)]
    · have other : f x ≠ f a := fun equal => same (apart x List.mem_cons_self equal)
      rw [List.idxOf_cons_ne _ same, List.idxOf_cons_ne _ other,
        ih fun b hb => apart b (List.mem_cons_of_mem _ hb)]

section Retimed
variable {f : Artifact → Artifact} {us : List Artifact} (retimes : Retimes f us) {a b : Artifact}
include retimes

theorem retimedLe (ha : a ∈ us) (hb : b ∈ us) : (f a).created ≤ (f b).created ↔ a.created ≤ b.created :=
  not_congr (retimes.ordered b hb a ha)

theorem retimedSame (ha : a ∈ us) (hb : b ∈ us) (same : (f a).created = (f b).created) :
    a.created = b.created :=
  Instant.le_antisymm ((retimedLe retimes ha hb).mp (same ▸ Instant.le_refl _))
    ((retimedLe retimes hb ha).mp (same ▸ Instant.le_refl _))

theorem newestFirstRetimed : newestFirst (us.map f) = (newestFirst us).map f := by
  refine (List.map_mergeSort fun a ha b hb => ?_).symm
  exact decide_eq_decide.mpr (retimedLe retimes hb ha).symm

theorem anchoredRetimed (ha : a ∈ us) (anchored : Anchored us a.created) :
    Anchored (us.map f) (f a).created := by
  refine ⟨⟨f a, List.mem_map_of_mem ha, rfl⟩, fun c hc => ?_⟩
  obtain ⟨b, hb, rfl⟩ := List.mem_map.mp hc
  exact (retimedLe retimes hb ha).mpr (anchored.2 b hb)

theorem coversRetimed (ha : a ∈ us) (hb : b ∈ us) (t : Tier) (i : Nat) :
    t.Covers (f a).created i (f b).created ↔ t.Covers a.created i b.created := by
  simp only [Tier.Covers, retimes.aged b hb a ha]

theorem tiedRetimed (hb : b ∈ us) : (us.map f).filter (fun c => c.created = (f b).created) =
    (us.filter fun c => c.created = b.created).map f := by
  rw [List.filter_map]
  refine congrArg (List.map f) (List.filter_congr fun c hc => decide_eq_decide.mpr ?_)
  constructor
  · exact retimedSame retimes hc hb
  · intro same
    exact Instant.le_antisymm ((retimedLe retimes hc hb).mpr (same ▸ Instant.le_refl _))
      ((retimedLe retimes hb hc).mpr (same ▸ Instant.le_refl _))

section Distinct
variable (distinct : (us.map Artifact.id).Nodup)
include distinct

theorem retimedApart (ha : a ∈ us) (hb : b ∈ us) (same : f a = f b) : a = b := by
  have name : a.id = b.id := by rw [← retimes.named a ha, ← retimes.named b hb, same]
  exact List.inj_on_of_nodup_map distinct ha hb name

theorem retimedNodup : (us.map f).Nodup :=
  distinct.of_map.map_on fun _ ha _ hb => retimedApart retimes distinct ha hb

theorem winsRetimed (ha : a ∈ us) (hb : b ∈ us) (t : Tier) (i : Nat) :
    (∃ position, Slot.Wins (us.map f) (f a).created t i position (f b)) ↔
      ∃ position, Slot.Wins us a.created t i position b := by
  simp only [Slot.winsIff, leadsIff]
  refine and_congr (coversRetimed retimes ha hb t i) (and_congr ?_ ?_)
  · rw [List.forall_mem_map]
    refine forall₂_congr fun c hc => ?_
    rw [coversRetimed retimes ha hc, retimedLe retimes hc hb]
  · rw [tiedRetimed retimes hb, List.head?_map, Option.map_eq_some_iff]
    constructor
    · intro h
      obtain ⟨c, first, same⟩ := h
      have hc := (List.mem_filter.mp (List.mem_of_head? first)).1
      exact retimedApart retimes distinct hc hb same ▸ first
    · intro first
      exact ⟨b, first, rfl⟩

end Distinct
end Retimed
end Artifact

namespace Decision
open Artifact
variable {f : Artifact → Artifact} {us : List Artifact} {a : Artifact}

theorem reasonsRetimed (retimes : Retimes f us) (distinct : (us.map Artifact.id).Nodup) (p : Policy)
    (member : a ∈ us) : reasonsOf (us.map f) p (f a) = reasonsOf us p a := by
  cases p with
  | none => rfl
  | simple count =>
    have rank : ((newestFirst us).map f).idxOf (f a) = (newestFirst us).idxOf a :=
      idxOfMap fun b hb => retimedApart retimes distinct (memNewestFirst.mp hb) member
    simp only [reasonsOf, newestFirstRetimed retimes, rank]
  | smart d w m y =>
    obtain ⟨b, hb, known, anchored⟩ := anchorSome member
    have known' := anchorIff.mpr (anchoredRetimed retimes hb anchored)
    simp only [reasonsOf, known, known']
    refine slotReasonsCongr fun t count => Slot.wonCongr fun i _ => ?_
    rw [Slot.winsAt (retimedNodup retimes distinct) (List.mem_map_of_mem member),
      Slot.winsAt distinct.of_map member]
    exact winsRetimed retimes distinct hb member t i

theorem orderRetimed (retimes : Retimes f us) (p : Policy) : order p (us.map f) = (order p us).map f := by
  cases p with
  | none => rfl
  | simple count => exact newestFirstRetimed retimes
  | smart d w m y => rfl

section Whole
variable {as : List Artifact} (retimes : Retimes f as)
include retimes

theorem firstsRetimed : firsts (as.map f) = (firsts as).map f ∧ Retimes f (firsts as) :=
  ⟨firstsAfterRetimed retimes.named, retimes.part (firstsSublist as).subset⟩

theorem explainRetimed (p : Policy) :
    explain (as.map f) p = (explain as p).map fun v => { v with artifact := f v.artifact } := by
  obtain ⟨unique, part⟩ := firstsRetimed retimes
  rw [explainMap, explainMap, unique, List.map_map, List.map_map]
  refine List.map_congr_left fun a member => ?_
  simp only [Function.comp_apply, reasonsRetimed part (firstsIdsNodup as) p member, verdict]

theorem evaluateRetimed (p : Policy) :
    evaluate (as.map f) p = ⟨(evaluate as p).keep.map f, (evaluate as p).delete.map f⟩ := by
  obtain ⟨unique, part⟩ := firstsRetimed retimes
  have reasons : ∀ a ∈ order p (firsts as),
      reasonsOf ((firsts as).map f) p (f a) = reasonsOf (firsts as) p a :=
    fun a member => reasonsRetimed part (firstsIdsNodup as) p (memOrder.mp member)
  rw [evaluateFilter, evaluateFilter, unique, orderRetimed part, List.filter_map, List.filter_map]
  refine congrArg₂ Partition.mk (congrArg (List.map f) ?_) (congrArg (List.map f) ?_)
  · exact List.filter_congr fun a member => by rw [Function.comp_apply, reasons a member]
  · exact List.filter_congr fun a member => by rw [Function.comp_apply, reasons a member]

end Whole
end Decision
end BackupRotation
