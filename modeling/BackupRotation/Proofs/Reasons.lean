import BackupRotation.Decision
import BackupRotation.Proofs.Firsts
import BackupRotation.Proofs.Windows
/-! The reasons that one backup is kept for, as a function of the backup itself and not of its place.
Verdicts and partitions are read off it, and with them what a rotation keeps. -/
namespace BackupRotation

namespace Decision
open Artifact

def reasonsOf (us : List Artifact) (p : Policy) (a : Artifact) : List Reason :=
  match p with
  | .none => [.keepAll]
  | .simple count =>
    let rank := (newestFirst us).idxOf a
    if rank < count.toNat then [.recent rank] else []
  | .smart .. =>
    match anchor? us with
    | none => []
    | some anchor => slotReasons (tierSlots us p anchor) (us.idxOf a)

theorem slotReasonsWon (us : List Artifact) (p : Policy) (anchor : Instant) (position : Nat) :
    slotReasons (tierSlots us p anchor) position =
      p.enabledTiers.flatMap fun (t, count) =>
        (Slot.won us anchor t count.toNat position).map fun i => .slot t i := by
  simp [slotReasons, tierSlots, Slot.won, List.flatMap_map, Function.comp_def]

theorem slotReasonsCongr {us vs : List Artifact} {p : Policy} {anchor anchor' : Instant} {k k' : Nat}
    (same : ∀ t count, Slot.won us anchor t count k = Slot.won vs anchor' t count k') :
    slotReasons (tierSlots us p anchor) k = slotReasons (tierSlots vs p anchor') k' := by
  simp only [slotReasonsWon, same]

theorem memSlotReasons {us : List Artifact} {p : Policy} {anchor : Instant} {position : Nat}
    {r : Reason} : r ∈ slotReasons (tierSlots us p anchor) position ↔
      ∃ t i, r = .slot t i ∧ i < (p.countOf t).toNat ∧ ∃ a, Slot.Wins us anchor t i position a := by
  simp only [slotReasonsWon, List.mem_flatMap, List.mem_map, Slot.memWon]
  constructor
  · intro h
    obtain ⟨⟨t, count⟩, enabled, i, won, rfl⟩ := h
    obtain ⟨rfl, _⟩ := (Policy.enabledTiersIff p t count).mp enabled
    exact ⟨t, i, rfl, won⟩
  · intro h
    obtain ⟨t, i, rfl, below, won⟩ := h
    have some : p.countOf t ≠ 0 := by
      intro none
      simp [none] at below
    exact ⟨(t, p.countOf t), (Policy.enabledTiersIff p t _).mpr ⟨rfl, some⟩, i, ⟨below, won⟩, rfl⟩

theorem memReasonsSmart {us : List Artifact} (distinct : us.Nodup) {d w m y : UInt32}
    {a : Artifact} (member : a ∈ us) {r : Reason} : r ∈ reasonsOf us (.smart d w m y) a ↔
      ∃ t i, r = .slot t i ∧ i < ((Policy.smart d w m y).countOf t).toNat ∧
        ∃ anchor position, Anchored us anchor ∧ Slot.Wins us anchor t i position a := by
  have place {anchor t i b} (wins : Slot.Wins us anchor t i (us.idxOf a) b) : b = a :=
    Option.some.inj (wins.found.symm.trans (List.getElem?_idxOf member))
  obtain ⟨newest, _, known, anchored⟩ := anchorSome member
  simp only [reasonsOf, known, memSlotReasons]
  constructor
  · intro h
    obtain ⟨t, i, same, below, b, wins⟩ := h
    obtain rfl := place wins
    exact ⟨t, i, same, below, _, _, anchored, wins⟩
  · intro h
    obtain ⟨t, i, same, below, anchor, position, anchored', wins⟩ := h
    obtain rfl := anchorUnique anchored anchored'
    exact ⟨t, i, same, below, a, Slot.winsPlace distinct wins ▸ wins⟩

def order (p : Policy) (us : List Artifact) : List Artifact :=
  match p with
  | .simple _ => newestFirst us
  | _ => us

theorem zipIdxMap {β : Type} (f : Artifact → Nat → β) {us : List Artifact} (distinct : us.Nodup) :
    us.zipIdx.map (fun x => f x.1 x.2) = us.map fun a => f a (us.idxOf a) := by
  refine List.ext_getElem (by simp) ?_
  intro i _ _
  simp [distinct.idxOf_getElem]

theorem explainMap (as : List Artifact) (p : Policy) :
    explain as p = (firsts as).map fun a => verdict a (reasonsOf (firsts as) p a) := by
  cases p with
  | none => rfl
  | simple count => rfl
  | smart d w m y =>
    simp only [explain, rotationVerdicts, reasonsOf]
    cases h : anchor? (firsts as) with
    | none =>
      cases hu : firsts as with
      | nil => rfl
      | cons a rest => simp [hu, anchor?] at h
    | some anchor => exact zipIdxMap (fun a i => verdict a (slotReasons _ i)) (firstsNodup as)

/-- A verdict on `a` names the reason `r`. -/
def Gives (as : List Artifact) (p : Policy) (a : Artifact) (r : Reason) : Prop :=
  ∃ v ∈ explain as p, v.artifact = a ∧ r ∈ v.reasons

theorem givesIff {as : List Artifact} {p : Policy} {a : Artifact} {r : Reason} :
    Gives as p a r ↔ a ∈ firsts as ∧ r ∈ reasonsOf (firsts as) p a := by
  simp only [Gives, explainMap, List.mem_map]
  constructor
  · intro h
    obtain ⟨_, ⟨b, member, rfl⟩, rfl, given⟩ := h
    exact ⟨member, given⟩
  · intro h
    obtain ⟨member, given⟩ := h
    exact ⟨_, ⟨a, member, rfl⟩, rfl, given⟩

theorem givesSlot {as : List Artifact} {d w m y : UInt32} {a : Artifact} {t : Tier} {i : Nat} :
    Gives as (.smart d w m y) a (.slot t i) ↔ i < ((Policy.smart d w m y).countOf t).toNat ∧
      ∃ anchor position, Anchored (firsts as) anchor ∧
        Slot.Wins (firsts as) anchor t i position a := by
  rw [givesIff]
  constructor
  · intro h
    obtain ⟨member, given⟩ := h
    obtain ⟨t', i', same, won⟩ := (memReasonsSmart (firstsNodup as) member).mp given
    cases same
    exact won
  · intro h
    obtain ⟨below, anchor, position, anchored, wins⟩ := h
    have member : a ∈ firsts as := List.mem_of_getElem? wins.found
    exact ⟨member, (memReasonsSmart (firstsNodup as) member).mpr
      ⟨t, i, rfl, below, anchor, position, anchored, wins⟩⟩

theorem reasonsIffSlot {as : List Artifact} {d w m y : UInt32} {a : Artifact}
    (member : a ∈ firsts as) : reasonsOf (firsts as) (.smart d w m y) a ≠ [] ↔
      ∃ t i, Gives as (.smart d w m y) a (.slot t i) := by
  constructor
  · intro some
    obtain ⟨r, given⟩ := List.exists_mem_of_ne_nil _ some
    obtain ⟨t, i, rfl, _⟩ := (memReasonsSmart (firstsNodup as) member).mp given
    exact ⟨t, i, givesIff.mpr ⟨member, given⟩⟩
  · intro h
    obtain ⟨t, i, given⟩ := h
    exact List.ne_nil_of_mem (givesIff.mp given).2

theorem presentMap (p : Policy) (us : List Artifact) (reasons : Artifact → List Reason) :
    present p (us.map fun a => verdict a (reasons a)) =
      (order p us).map fun a => verdict a (reasons a) := by
  cases p with
  | none => rfl
  | simple count =>
    simp only [present, order, newestFirst]
    symm
    apply List.map_mergeSort
    intro a _ b _
    rfl
  | smart d w m y => rfl

theorem partitionMap (us : List Artifact) (reasons : Artifact → List Reason) :
    partition (us.map fun a => verdict a (reasons a)) =
      ⟨us.filter fun a => !(reasons a).isEmpty, us.filter fun a => (reasons a).isEmpty⟩ := by
  simp [partition, List.filter_map, Function.comp_def, verdict]

theorem evaluateFilter (as : List Artifact) (p : Policy) :
    evaluate as p =
      ⟨(order p (firsts as)).filter fun a => !(reasonsOf (firsts as) p a).isEmpty,
        (order p (firsts as)).filter fun a => (reasonsOf (firsts as) p a).isEmpty⟩ := by
  rw [evaluate, explainMap, presentMap, partitionMap]

theorem memOrder {p : Policy} {us : List Artifact} {a : Artifact} : a ∈ order p us ↔ a ∈ us := by
  cases p with
  | none => exact Iff.rfl
  | simple count => exact memNewestFirst
  | smart d w m y => exact Iff.rfl

theorem orderFilter (p : Policy) (q : Artifact → Bool) (us : List Artifact) :
    order p (us.filter q) = (order p us).filter q := by
  cases p with
  | none => rfl
  | simple count => exact newestFirstFilter q us
  | smart d w m y => rfl

theorem memKeep {as : List Artifact} {p : Policy} {a : Artifact} :
    a ∈ (evaluate as p).keep ↔ a ∈ firsts as ∧ reasonsOf (firsts as) p a ≠ [] := by
  simp [evaluateFilter, memOrder]

theorem memKeepSmart {as : List Artifact} {d w m y : UInt32} {a : Artifact} :
    a ∈ (evaluate as (.smart d w m y)).keep ↔
      ∃ t i, Gives as (.smart d w m y) a (.slot t i) := by
  rw [memKeep]
  constructor
  · intro h
    exact (reasonsIffSlot h.1).mp h.2
  · intro h
    have member : a ∈ firsts as := by
      obtain ⟨t, i, given⟩ := h
      exact (givesIff.mp given).1
    exact ⟨member, (reasonsIffSlot member).mpr h⟩

theorem memDelete {as : List Artifact} {p : Policy} {a : Artifact} :
    a ∈ (evaluate as p).delete ↔ a ∈ firsts as ∧ reasonsOf (firsts as) p a = [] := by
  simp [evaluateFilter, memOrder]

theorem decidedApart {as : List Artifact} {p : Policy} {a d : Artifact}
    (kept : a ∈ (evaluate as p).keep) (deleted : d ∈ (evaluate as p).delete) : d.id ≠ a.id := by
  intro same
  obtain ⟨memberA, some⟩ := memKeep.mp kept
  obtain ⟨memberD, none⟩ := memDelete.mp deleted
  obtain rfl := List.inj_on_of_nodup_map (firstsIdsNodup as) memberD memberA same
  exact some none

end Decision
end BackupRotation
