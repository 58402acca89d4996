import BackupRotation.Proofs.Ages
/-! The windows that are filled against those that are meant. Parts of a millisecond are dropped before an age
is taken for negative, so a backup that is newer than the anchor by less than a millisecond is in the first
window; but for those the windows are exact to the nanosecond. -/
namespace BackupRotation

namespace Instant

/-- Nanoseconds from `t` to `anchor`, with every second counted alike. -/
def offset (anchor t : Instant) : Int :=
  (anchor.seconds - t.seconds) * 1000000000 + ((anchor.nanos : Int) - t.nanos)

/-- Newer than the anchor, but by less than a millisecond. -/
def JustAfter (anchor t : Instant) : Prop := -1000000 < offset anchor t ∧ offset anchor t < 0

theorem offsetFalls (anchor : Instant) {s t : Instant} (hs : ¬ s.IsLeap) (order : s ≤ t) :
    offset anchor t ≤ offset anchor s := by
  change ¬ Before t s at order
  unfold Before at order
  unfold IsLeap at hs
  unfold offset
  omega

end Instant

namespace Tier

/-- Window `i` as it is meant: from `i` widths behind the anchor up to but not including `i + 1`. -/
def Holds (t : Tier) (anchor : Instant) (i : Nat) (created : Instant) : Prop :=
  i * t.widthNanos ≤ Instant.offset anchor created ∧ Instant.offset anchor created < (i + 1) * t.widthNanos

theorem coversExact {t : Tier} {anchor created : Instant} {i : Nat} (plain : ¬ created.IsLeap)
    (plain' : ¬ anchor.IsLeap) :
    t.Covers anchor i created ↔ t.Holds anchor i created ∨ i = 0 ∧ Instant.JustAfter anchor created := by
  have age : Instant.elapsed created anchor = Instant.offset anchor created :=
    Instant.elapsedWhole plain plain'
  have width := t.widthNanosPositive
  rw [coversIff, age]
  unfold Holds Instant.JustAfter
  cases i with
  | zero => simp; omega
  | succ i =>
    have behind : 0 < ((i + 1 : Nat) : Int) * t.widthNanos := Int.mul_pos (by omega) width
    omega

end Tier

namespace Slot
open Artifact

/-- The slots are those of the windows below `count` that a backup is `inside`, in the order of the windows,
each for the newest backup in its window, the earliest in the list where times are equal. -/
structure Fills (as : List Artifact) (inside : Nat → Instant → Prop) (count : Nat) (slots : List Slot) :
    Prop where
  rising : slots.Pairwise fun r s => r.index < s.index
  filled : ∀ i, i ∈ slots.map Slot.index ↔ i < count ∧ ∃ a ∈ as, inside i a.created
  won : ∀ s ∈ slots, ∃ a, Leads as (inside s.index) s.position a

variable {as : List Artifact} {anchor : Instant} {t : Tier} {count : Nat} {slots : List Slot}
  {inside inside' : Nat → Instant → Prop}

theorem fillsCongr (same : ∀ i < count, ∀ a ∈ as, inside i a.created ↔ inside' i a.created)
    (fills : Fills as inside count slots) : Fills as inside' count slots := by
  have below {i : Nat} (filled : i ∈ slots.map Slot.index) : i < count := ((fills.filled i).mp filled).1
  refine ⟨fills.rising, fun i => ?_, fun s member => ?_⟩
  · rw [fills.filled]
    exact and_congr_right fun less => exists_congr fun a => and_congr_right fun member => same i less a member
  · obtain ⟨a, leads⟩ := fills.won s member
    exact ⟨a, leadsCongr (same s.index (below (List.mem_map_of_mem member))) leads⟩

theorem fillCovers (as : List Artifact) (anchor : Instant) (t : Tier) (count : Nat) :
    Fills as (t.Covers anchor) count (fill as anchor t count) := by
  refine ⟨fillRises as anchor t count, fun i => ?_, fun s member => ?_⟩
  · constructor
    · intro h
      obtain ⟨s, member, rfl⟩ := List.mem_map.mp h
      obtain ⟨below, a, wins⟩ := memFill.mp member
      exact ⟨below, a, List.mem_of_getElem? wins.found, wins.covered⟩
    · intro h
      obtain ⟨below, b, member, covered⟩ := h
      obtain ⟨position, a, wins⟩ := winsOfCovered member covered
      exact List.mem_map.mpr ⟨⟨i, position⟩, memFill.mpr ⟨below, a, wins⟩, rfl⟩
  · obtain ⟨_, a, wins⟩ := memFill.mp member
    exact ⟨a, winsIff.mp wins⟩

theorem firstSlotAfter (some : 0 < count) (plain : ∀ a ∈ as, ¬ a.created.IsLeap) (plain' : ¬ anchor.IsLeap)
    {a : Artifact} (member : a ∈ as) (after : Instant.JustAfter anchor a.created) :
    ¬ Fills as (t.Holds anchor) count (fill as anchor t count) := by
  intro fills
  have covers := fillCovers as anchor t count
  have covered : t.Covers anchor 0 a.created :=
    (Tier.coversExact (plain a member) plain').mpr (.inr ⟨rfl, after⟩)
  -- whatever has the first slot is just after the anchor too, as it is no older than `a`
  obtain ⟨s, filled, first⟩ := List.mem_map.mp ((covers.filled 0).mpr ⟨some, a, member, covered⟩)
  obtain ⟨b, leads⟩ := covers.won s filled
  obtain ⟨c, leads'⟩ := fills.won s filled
  obtain rfl : b = c := Option.some.inj (leads.found.symm.trans leads'.found)
  have newer := leads.newest a member (first ▸ covered)
  have offset := Instant.offsetFalls anchor (plain a member) newer
  have held := leads'.own.1
  have late := after.2
  simp only [first, Nat.cast_zero, Int.zero_mul] at held
  omega

/-- Without leap seconds the slots are those of the windows as they are meant, and of the first window also
for what is just after the anchor. They are those as they are meant, and no others, exactly where no slot
is asked for or no backup is just after the anchor. -/
theorem fillWindows (as : List Artifact) (anchor : Instant) (t : Tier) (count : UInt32)
    (plain : ∀ a ∈ as, ¬ a.created.IsLeap) (plain' : ¬ anchor.IsLeap) :
    let slots := fill as anchor t count.toNat
    Fills as (fun i created => t.Holds anchor i created ∨ i = 0 ∧ Instant.JustAfter anchor created)
        count.toNat slots ∧
      (Fills as (t.Holds anchor) count.toNat slots ↔
        count = 0 ∨ ∀ a ∈ as, ¬ Instant.JustAfter anchor a.created) := by
  intro slots
  have covers := fillCovers as anchor t count.toNat
  have exactly (i : Nat) (a : Artifact) (member : a ∈ as) : t.Covers anchor i a.created ↔
      t.Holds anchor i a.created ∨ i = 0 ∧ Instant.JustAfter anchor a.created :=
    Tier.coversExact (plain a member) plain'
  refine ⟨fillsCongr (fun i _ => exactly i) covers, ?_⟩
  constructor
  · intro fills
    by_contra h
    obtain ⟨some, some'⟩ := not_or.mp h
    obtain ⟨a, late⟩ := not_forall.mp some'
    obtain ⟨member, after⟩ := not_forall.mp late
    have asked : 0 < count.toNat := Nat.pos_of_ne_zero fun zero => some (UInt32.toNat_inj.mp zero)
    exact firstSlotAfter asked plain plain' member (not_not.mp after) fills
  · intro h
    refine fillsCongr (fun i below a member => ?_) covers
    rw [exactly i a member]
    obtain rfl | before := h
    · exact absurd below (Nat.not_lt_zero i)
    · exact or_iff_left fun late => before a member late.2

theorem fillWindowsEdges :
    let as : List Artifact := [⟨"a", 1, ⟨86399, 999999999, by decide⟩⟩, ⟨"b", 2, ⟨0, 0, by decide⟩⟩,
      ⟨"c", 3, ⟨86400, 1000000, by decide⟩⟩, ⟨"d", 4, ⟨0, 0, by decide⟩⟩]
    let anchor : Instant := ⟨86400, 0, by decide⟩
    (∀ a ∈ as, ¬ a.created.IsLeap) ∧ ¬ anchor.IsLeap ∧
      Fills as (Tier.daily.Holds anchor) 2 (fill as anchor .daily 2) := by
  intro as anchor
  have plain : ∀ a ∈ as, ¬ a.created.IsLeap := by decide
  have before : ∀ a ∈ as, ¬ Instant.JustAfter anchor a.created := by
    unfold Instant.JustAfter Instant.offset
    decide
  exact ⟨plain, by decide, (fillWindows as anchor .daily 2 plain (by decide)).2.mpr (.inr before)⟩

theorem fillHoldsAfter :
    let as : List Artifact := [⟨"a", 1, ⟨0, 500000, by decide⟩⟩]
    let anchor : Instant := ⟨0, 0, by decide⟩
    (∀ a ∈ as, ¬ a.created.IsLeap) ∧ ¬ anchor.IsLeap ∧ fill as anchor .daily 1 = [⟨0, 0⟩] ∧
      ¬ Fills as (Tier.daily.Holds anchor) 1 (fill as anchor .daily 1) := by
  intro as anchor
  refine ⟨by decide, by decide, by decide, fun fills => ?_⟩
  obtain ⟨_, a, member, held⟩ := (fills.filled 0).mp (by decide)
  rw [List.mem_singleton.mp member] at held
  exact absurd held.1 (by decide)

end Slot
end BackupRotation
