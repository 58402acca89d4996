import BackupRotation.Proofs.Partition
import Mathlib.Algebra.BigOperators.Group.List.Basic
/-! Verdicts say what the partition does, and their reasons are of the policy's own kind: a rank for
the newest few, at most one slot of each tier in a rotation, and no slot for two backups. -/
namespace BackupRotation.Decision
open Artifact

variable {as : List Artifact} {p : Policy}

theorem presentPerm (p : Policy) (vs : List Verdict) : (present p vs).Perm vs := by
  cases p with
  | none => exact .refl vs
  | simple count => exact List.mergeSort_perm vs _
  | smart d w m y => exact .refl vs

theorem partitionPerm {vs ws : List Verdict} (same : vs.Perm ws) :
    (partition vs).keep.Perm (partition ws).keep ∧ (partition vs).delete.Perm (partition ws).delete :=
  ⟨(same.filter _).map _, (same.filter _).map _⟩

theorem memExplain {v : Verdict} :
    v ∈ explain as p ↔ ∃ a ∈ firsts as, verdict a (reasonsOf (firsts as) p a) = v := by
  rw [explainMap, List.mem_map]

theorem verdictKept {v : Verdict} (member : v ∈ explain as p) :
    (v.artifact ∈ (evaluate as p).keep ↔ v.keep = true) ∧ (v.keep = true ↔ v.reasons ≠ []) := by
  obtain ⟨a, first, rfl⟩ := memExplain.mp member
  have given := verdictKeepIff a (reasonsOf (firsts as) p a)
  refine ⟨?_, given⟩
  rw [given, verdict, memKeep]
  exact and_iff_right first

theorem keepExplained {a : Artifact} :
    a ∈ (evaluate as p).keep ↔ ∃ v ∈ explain as p, v.artifact = a ∧ v.keep = true := by
  constructor
  · intro kept
    have member := memExplain.mpr ⟨a, (memKeep.mp kept).1, (rfl : verdict a (reasonsOf _ p a) = _)⟩
    exact ⟨_, member, rfl, (verdictKept member).1.mp kept⟩
  · intro h
    obtain ⟨v, member, rfl, keep⟩ := h
    exact (verdictKept member).1.mpr keep

theorem deleteExplained {a : Artifact} :
    a ∈ (evaluate as p).delete ↔ ∃ v ∈ explain as p, v.artifact = a ∧ v.keep = false := by
  have given (b : Artifact) : (verdict b (reasonsOf (firsts as) p b)).keep = false ↔
      reasonsOf (firsts as) p b = [] := by
    rw [← Bool.not_eq_true, verdictKeepIff, not_not]
  rw [memDelete]
  constructor
  · intro h
    exact ⟨_, memExplain.mpr ⟨a, h.1, rfl⟩, rfl, (given a).mpr h.2⟩
  · intro h
    obtain ⟨v, member, rfl, idle⟩ := h
    obtain ⟨b, first, rfl⟩ := memExplain.mp member
    exact ⟨first, (given b).mp idle⟩

section Simple
variable {count : UInt32}

theorem keepSimple :
    (evaluate as (.simple count)).keep = (newestFirst (firsts as)).take count.toNat := by
  have distinct : (newestFirst (firsts as)).Nodup := (newestFirstPerm _).nodup_iff.mpr (firstsNodup as)
  rw [evaluateFilter, distinct.take_eq_filter_mem]
  refine List.filter_congr fun a member => ?_
  have first : a ∈ (newestFirst (firsts as)).take count.toNat ↔
      (newestFirst (firsts as)).idxOf a < count.toNat := List.mem_take_iff_idxOf_lt member
  by_cases rank : (newestFirst (firsts as)).idxOf a < count.toNat
  · simp [reasonsOf, rank, first.mpr rank]
  · simp [reasonsOf, rank, mt first.mp rank]

theorem deleteSimple :
    (evaluate as (.simple count)).delete = (newestFirst (firsts as)).drop count.toNat := by
  have distinct : (newestFirst (firsts as)).Nodup := (newestFirstPerm _).nodup_iff.mpr (firstsNodup as)
  have ranked {a : Artifact} (member : a ∈ newestFirst (firsts as)) :
      reasonsOf (firsts as) (.simple count) a = [] ↔ a ∉ (newestFirst (firsts as)).take count.toNat := by
    rw [List.mem_take_iff_idxOf_lt member]
    simp [reasonsOf]
  have spared : ((newestFirst (firsts as)).take count.toNat).filter
      (fun a => (reasonsOf (firsts as) (.simple count) a).isEmpty) = [] := by
    refine List.filter_eq_nil_iff.mpr fun a early => ?_
    simpa [ranked (List.mem_of_mem_take early)] using early
  have due : ((newestFirst (firsts as)).drop count.toNat).filter
      (fun a => (reasonsOf (firsts as) (.simple count) a).isEmpty) =
        (newestFirst (firsts as)).drop count.toNat := by
    refine List.filter_eq_self.mpr fun a late => ?_
    have beyond : a ∉ (newestFirst (firsts as)).take count.toNat :=
      fun early => List.disjoint_take_drop distinct (Nat.le_refl _) early late
    simpa [ranked (List.mem_of_mem_drop late)] using beyond
  rw [evaluateFilter]
  simp only [order]
  conv_lhs => rw [← List.take_append_drop count.toNat (newestFirst (firsts as))]
  rw [List.filter_append, spared, due, List.nil_append]

theorem decidedSimple : (evaluate as (.simple count)).keep ++ (evaluate as (.simple count)).delete =
    newestFirst (firsts as) := by
  rw [keepSimple, deleteSimple, List.take_append_drop]

theorem keepDistinct (distinct : (as.map Artifact.id).Nodup) :
    (evaluate as (.simple count)).keep = (newestFirst as).take count.toNat := by
  rw [keepSimple, firstsOfNodup distinct]

theorem deleteDistinct (distinct : (as.map Artifact.id).Nodup) :
    (evaluate as (.simple count)).delete = (newestFirst as).drop count.toNat := by
  rw [deleteSimple, firstsOfNodup distinct]

theorem rankReason {a : Artifact} {rank : Nat}
    (found : (evaluate as (.simple count)).keep[rank]? = some a) :
    reasonsOf (firsts as) (.simple count) a = [.recent rank] := by
  rw [keepSimple, List.getElem?_take] at found
  split at found
  · rename_i below
    have distinct := (newestFirstPerm (firsts as)).nodup_iff.mpr (firstsNodup as)
    obtain ⟨inside, rfl⟩ := List.getElem?_eq_some_iff.mp found
    simp [reasonsOf, distinct.idxOf_getElem rank inside, below]
  · contradiction

end Simple

section Smart
variable {d w m y : UInt32}

theorem enabledSublist (p : Policy) : (p.enabledTiers.map Prod.fst).Sublist Tier.all := by
  have whole : (Tier.all.map fun t => (t, p.countOf t)).map Prod.fst = Tier.all := rfl
  exact whole ▸ List.filter_sublist.map Prod.fst

theorem onceSublist {α β : Type} {f : α → List β} {xs : List α} (once : ∀ x ∈ xs, (f x).length ≤ 1) :
    ((xs.flatMap fun x => (f x).map fun i => (x, i)).map Prod.fst).Sublist xs := by
  induction xs with
  | nil => simp
  | cons x xs ih =>
    have rest := ih fun z hz => once z (List.mem_cons_of_mem _ hz)
    rw [List.flatMap_cons, List.map_append, List.map_map]
    match hf : f x with
    | [] => simpa using rest.cons x
    | [i] => simpa using rest
    | i :: j :: more =>
      have := once x List.mem_cons_self
      simp [hf] at this

/-- At most one window of each tier, the tiers in their order, each window below the tier's count. -/
structure InTiers (p : Policy) (slots : List (Tier × Nat)) : Prop where
  once : (slots.map Prod.fst).Sublist Tier.all
  below : ∀ s ∈ slots, s.2 < (p.countOf s.1).toNat

theorem InTiers.nodup {slots : List (Tier × Nat)} (h : InTiers p slots) : slots.Nodup :=
  (h.once.nodup (by decide)).of_map

theorem reasonsSlots (us : List Artifact) (a : Artifact) :
    ∃ slots, InTiers (.smart d w m y) slots ∧
      reasonsOf us (.smart d w m y) a = slots.map fun s => .slot s.1 s.2 := by
  simp only [reasonsOf]
  cases anchor? us with
  | none => exact ⟨[], ⟨List.nil_sublist _, by simp⟩, rfl⟩
  | some anchor =>
    let p := Policy.smart d w m y
    let windows (x : Tier × UInt32) := Slot.won us anchor x.1 x.2.toNat (us.idxOf a)
    let pairs := p.enabledTiers.flatMap fun x => (windows x).map fun i => (x, i)
    have once : (pairs.map Prod.fst).Sublist p.enabledTiers :=
      onceSublist fun x _ => Slot.wonOnce us anchor x.1 x.2.toNat (us.idxOf a)
    refine ⟨pairs.map fun z => (z.1.1, z.2), ⟨?_, ?_⟩, ?_⟩
    · have tiers := (once.map Prod.fst).trans (enabledSublist p)
      rw [List.map_map] at tiers ⊢
      exact tiers
    · intro s hs
      obtain ⟨z, hz, rfl⟩ := List.mem_map.mp hs
      obtain ⟨x, enabled, hx⟩ := List.mem_flatMap.mp hz
      obtain ⟨i, won, rfl⟩ := List.mem_map.mp hx
      obtain ⟨count, _⟩ := (Policy.enabledTiersIff p x.1 x.2).mp enabled
      rw [count]
      exact (Slot.memWon.mp won).1
    · simp only [slotReasonsWon, pairs, List.map_flatMap, List.map_map]
      rfl

theorem reasonsNodup (us : List Artifact) (a : Artifact) :
    (reasonsOf us (.smart d w m y) a).Nodup := by
  obtain ⟨slots, tiers, same⟩ := reasonsSlots (d := d) (w := w) (m := m) (y := y) us a
  rw [same]
  refine tiers.nodup.map fun s t equal => ?_
  obtain ⟨tier, index⟩ := Reason.slot.inj equal
  exact Prod.ext tier index

theorem reasonsApart {us : List Artifact} (distinct : us.Nodup) {a b : Artifact} (ha : a ∈ us)
    (hb : b ∈ us) (other : a ≠ b) :
    (reasonsOf us (.smart d w m y) a).Disjoint (reasonsOf us (.smart d w m y) b) := by
  intro r givenA givenB
  obtain ⟨t, i, rfl, _, anchor, j, anchored, wins⟩ := (memReasonsSmart distinct ha).mp givenA
  obtain ⟨t', i', same, _, anchor', k, anchored', wins'⟩ := (memReasonsSmart distinct hb).mp givenB
  cases same
  obtain rfl := anchorUnique anchored anchored'
  exact other (Slot.winsUnique wins wins').2

def allSlots (p : Policy) : List Reason :=
  Tier.all.flatMap fun t => (List.range (p.countOf t).toNat).map (Reason.slot t)

theorem reasonsInAll {us : List Artifact} {a : Artifact} :
    reasonsOf us (.smart d w m y) a ⊆ allSlots (.smart d w m y) := by
  intro r given
  obtain ⟨slots, tiers, same⟩ := reasonsSlots (d := d) (w := w) (m := m) (y := y) us a
  rw [same] at given
  obtain ⟨s, hs, rfl⟩ := List.mem_map.mp given
  exact List.mem_flatMap.mpr ⟨s.1, Tier.mem_all s.1,
    List.mem_map.mpr ⟨s.2, List.mem_range.mpr (tiers.below s hs), rfl⟩⟩

theorem keepFewerThanSlots (as : List Artifact) : (evaluate as (.smart d w m y)).keep.length ≤
    (Tier.all.map fun t => ((Policy.smart d w m y).countOf t).toNat).sum := by
  let p := Policy.smart d w m y
  let given := (evaluate as p).keep.flatMap (reasonsOf (firsts as) p)
  have distinct : (evaluate as p).keep.Nodup :=
    ((decidedPerm as p).nodup_iff.mpr (firstsNodup as)).of_append_left
  have each : (evaluate as p).keep.length ≤ given.length := by
    have some := List.length_le_sum_of_one_le
      ((evaluate as p).keep.map fun a => (reasonsOf (firsts as) p a).length) (by
        intro n hn
        obtain ⟨a, kept, rfl⟩ := List.mem_map.mp hn
        exact List.length_pos_iff.mpr (memKeep.mp kept).2)
    simpa [given, List.length_flatMap] using some
  have nodup : given.Nodup := by
    refine List.nodup_flatMap.mpr ⟨fun a _ => reasonsNodup (firsts as) a, ?_⟩
    refine distinct.pairwise_of_forall_ne fun a ha b hb other => ?_
    exact reasonsApart (firstsNodup as) (memKeep.mp ha).1 (memKeep.mp hb).1 other
  have inside : given ⊆ allSlots p := by
    intro r hr
    obtain ⟨a, _, reason⟩ := List.mem_flatMap.mp hr
    exact reasonsInAll reason
  calc (evaluate as p).keep.length
      ≤ given.length := each
    _ ≤ (allSlots p).length := (List.subperm_of_subset nodup inside).length_le
    _ = (Tier.all.map fun t => (p.countOf t).toNat).sum := by
      simp [allSlots, List.length_flatMap]

end Smart

/-- The reasons that a policy gives, beside the backups it keeps. -/
def Grounded (p : Policy) (keep : List Artifact) (vs : List Verdict) : Prop :=
  match p with
  | .none => ∀ v ∈ vs, v.reasons = [.keepAll]
  | .simple _ => ∀ v ∈ vs, ∀ rank, keep[rank]? = some v.artifact → v.reasons = [.recent rank]
  | .smart .. =>
    (∀ v ∈ vs, ∃ slots, InTiers p slots ∧ v.reasons = slots.map fun s => .slot s.1 s.2) ∧
      (vs.Pairwise fun v w => v.reasons.Disjoint w.reasons) ∧
      keep.length ≤ (Tier.all.map fun t => (p.countOf t).toNat).sum

theorem explainGrounded (as : List Artifact) (p : Policy) :
    Grounded p (evaluate as p).keep (explain as p) := by
  cases p with
  | none =>
    intro v member
    obtain ⟨a, _, rfl⟩ := memExplain.mp member
    rfl
  | simple count =>
    intro v member rank found
    obtain ⟨a, _, rfl⟩ := memExplain.mp member
    exact rankReason found
  | smart d w m y =>
    refine ⟨?_, ?_, keepFewerThanSlots as⟩
    · intro v member
      obtain ⟨a, _, rfl⟩ := memExplain.mp member
      exact reasonsSlots (firsts as) a
    · rw [explainMap, List.pairwise_map]
      refine (firstsNodup as).pairwise_of_forall_ne fun a ha b hb other => ?_
      exact reasonsApart (firstsNodup as) ha hb other

theorem verdictsAgree (as : List Artifact) (p : Policy) :
    let keep := (evaluate as p).keep
    (explain as p).map Verdict.artifact = (newPlaces as).map Prod.fst ∧
      (∀ a, a ∈ keep ↔ ∃ v ∈ explain as p, v.artifact = a ∧ v.keep = true) ∧
      (∀ v ∈ explain as p,
        (v.artifact ∈ keep ↔ v.keep = true) ∧ (v.keep = true ↔ v.reasons ≠ [])) ∧
      Grounded p keep (explain as p) := by
  refine ⟨?_, fun a => keepExplained, fun v member => verdictKept member, explainGrounded as p⟩
  rw [explainArtifacts, firstsPlaces]

theorem verdictsAgreeTied :
    let as : List Artifact := [⟨"a", 1, ⟨90000, 0, by decide⟩⟩, ⟨"b", 2, ⟨90000, 0, by decide⟩⟩,
      ⟨"c", 3, ⟨0, 0, by decide⟩⟩, ⟨"a", 4, ⟨99000, 0, by decide⟩⟩]
    let p := Policy.smart 2 1 0 0
    let v : Verdict := ⟨⟨"a", 1, ⟨90000, 0, by decide⟩⟩, true, [.slot .daily 0, .slot .weekly 0]⟩
    v ∈ explain as p ∧ v.artifact ∈ (evaluate as p).keep := by
  intro as p v
  have member : v ∈ explain as p := by decide +kernel
  obtain ⟨_, _, decides, _⟩ := verdictsAgree as p
  exact ⟨member, (decides v member).1.mpr rfl⟩

end BackupRotation.Decision
