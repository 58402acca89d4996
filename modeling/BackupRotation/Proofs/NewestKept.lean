import BackupRotation.Proofs.Verdicts
import BackupRotation.Proofs.PartialDeletion
/-! The newest backup of all wins the first window of every tier and heads the newest few, so each policy
that keeps any backup keeps it. -/
namespace BackupRotation

namespace Artifact
variable {as : List Artifact} {position : Nat} {a : Artifact}

theorem leadsFirst (leads : Leads as (fun _ => True) position a) : (newestFirst as).head? = some a := by
  have member := memNewestFirst.mpr (List.mem_of_getElem? leads.found)
  cases sorted : newestFirst as with
  | nil => simp [sorted] at member
  | cons b bs =>
    have order := List.pairwise_cons.mp (sorted ▸ newestFirstSorted as)
    have inB : b ∈ as := memNewestFirst.mp (sorted ▸ List.mem_cons_self)
    have below : a.created ≤ b.created := by
      rcases List.mem_cons.mp (sorted ▸ member) with rfl | later
      · exact Instant.le_refl _
      · exact order.1 a later
    have same : b.created = a.created := Instant.le_antisymm (leads.newest b inB trivial) below
    -- both are the first of their time, the one in the sorted list and the other in the given one
    have tied := newestFirstTied a.created as
    rw [sorted, List.filter_cons_of_pos (by simpa using same)] at tied
    have first := (leadsIff.mp ⟨position, leads⟩).2.2
    rw [← tied] at first
    simpa using first

end Artifact

namespace Decision
open Artifact
variable {as : List Artifact} {p : Policy} {position : Nat} {a : Artifact}

theorem firstsNilIff : firsts as = [] ↔ as = [] := by
  constructor
  · intro none
    cases as with
    | nil => rfl
    | cons b bs => simp [firsts, firstsAfter] at none
  · intro none
    rw [none]
    rfl

theorem leaderWins (leads : Leads as (fun _ => True) position a) (t : Tier) :
    Anchored as a.created ∧ Slot.Wins as a.created t 0 position a := by
  have member := List.mem_of_getElem? leads.found
  refine ⟨⟨⟨a, member, rfl⟩, fun b hb => leads.newest b hb trivial⟩, leads.found, t.coversSelf _, ?_, ?_⟩
  · exact fun b hb _ => leads.newest b hb trivial
  · exact fun j b found _ same => leads.earliest j b found same

theorem countsZero {d w m y : UInt32} :
    (∀ t, (Policy.smart d w m y).countOf t = 0) ↔ Policy.smart d w m y = .smart 0 0 0 0 := by
  constructor
  · intro zero
    rw [show d = 0 from zero .daily, show w = 0 from zero .weekly, show m = 0 from zero .monthly,
      show y = 0 from zero .yearly]
  · intro zero t
    rw [zero]
    cases t <;> rfl

/-- The policies that keep nothing. -/
def Idle (p : Policy) : Prop := p = .simple 0 ∨ p = .smart 0 0 0 0

theorem idleKeeps (idle : Idle p) : (evaluate as p).keep = [] := by
  rcases idle with rfl | rfl
  · rw [keepSimple]
    exact List.take_zero
  · apply List.eq_nil_iff_forall_not_mem.mpr
    intro b kept
    exact (memKeep.mp kept).2 (reasonsIdle (countsZero.mpr rfl))

theorem leaderKept (busy : ¬ Idle p) (leads : Leads (firsts as) (fun _ => True) position a) :
    a ∈ (evaluate as p).keep := by
  have member := List.mem_of_getElem? leads.found
  cases p with
  | none => exact memKeep.mpr ⟨member, by simp [reasonsOf]⟩
  | simple count =>
    have some : count.toNat ≠ 0 := fun zero => busy (.inl (congrArg _ (UInt32.toNat_inj.mp zero)))
    obtain ⟨n, long⟩ := Nat.exists_eq_succ_of_ne_zero some
    obtain ⟨rest, sorted⟩ := List.head?_eq_some_iff.mp (leadsFirst leads)
    rw [keepSimple, sorted, long]
    exact List.mem_cons_self
  | smart d w m y =>
    have enabled : ¬ ∀ t, (Policy.smart d w m y).countOf t = 0 := fun zero => busy (.inr (countsZero.mp zero))
    obtain ⟨t, count⟩ := not_forall.mp enabled
    have some : 0 < ((Policy.smart d w m y).countOf t).toNat :=
      Nat.pos_of_ne_zero fun zero => count (UInt32.toNat_inj.mp zero)
    obtain ⟨anchored, wins⟩ := leaderWins leads t
    exact memKeepSmart.mpr ⟨t, 0, givesSlot.mpr ⟨some, _, _, anchored, wins⟩⟩

/-- A policy keeps nothing only if there is nothing or no count is set. Otherwise it keeps, of the first
backups of each name, the newest and earliest of the equally new. -/
theorem newestKept (as : List Artifact) (p : Policy) :
    let us := (newPlaces as).map Prod.fst
    let keep := (evaluate as p).keep
    (keep = [] ↔ as = [] ∨ p = .simple 0 ∨ p = .smart 0 0 0 0) ∧
      (keep ≠ [] → ∃ position a, Leads us (fun _ => True) position a ∧ a ∈ keep) := by
  intro us keep
  have unique : us = firsts as := (firstsPlaces as).symm
  have leader (some : as ≠ []) : ∃ position a, Leads us (fun _ => True) position a := by
    obtain ⟨b, member⟩ := List.exists_mem_of_ne_nil _ (mt firstsNilIff.mp some)
    exact leadsSome (unique ▸ member) trivial
  have empty : as = [] → keep = [] := by
    intro none
    apply List.eq_nil_iff_forall_not_mem.mpr
    intro b kept
    have inside := (memKeep.mp kept).1
    rw [firstsNilIff.mpr none] at inside
    exact List.not_mem_nil inside
  have nothing : keep = [] ↔ as = [] ∨ Idle p := by
    constructor
    · intro none
      by_contra more
      obtain ⟨some, busy⟩ := not_or.mp more
      obtain ⟨position, a, leads⟩ := leader some
      have kept : a ∈ keep := leaderKept busy (unique ▸ leads)
      rw [none] at kept
      exact List.not_mem_nil kept
    · rintro (none | idle)
      · exact empty none
      · exact idleKeeps idle
  refine ⟨nothing, fun some => ?_⟩
  obtain ⟨filled, busy⟩ := not_or.mp (mt nothing.mpr some)
  obtain ⟨position, a, leads⟩ := leader filled
  exact ⟨position, a, leads, leaderKept busy (unique ▸ leads)⟩

theorem newestKeptLeap :
    let as : List Artifact := [⟨"c", 1, ⟨86399, 900000000, by decide⟩⟩, ⟨"a", 2, ⟨86399, 1500000000, by decide⟩⟩,
      ⟨"b", 3, ⟨86399, 1500000000, by decide⟩⟩, ⟨"c", 4, ⟨99999, 0, by decide⟩⟩]
    let us := (newPlaces as).map Prod.fst
    let keep := (evaluate as (.smart 0 1 0 0)).keep
    keep ≠ [] ∧ ∃ position a, Leads us (fun _ => True) position a ∧ a ∈ keep := by
  intro as us keep
  have some : keep ≠ [] := by decide +kernel
  exact ⟨some, (newestKept as (.smart 0 1 0 0)).2 some⟩

end Decision
end BackupRotation
