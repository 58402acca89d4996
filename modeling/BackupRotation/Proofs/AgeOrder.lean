import BackupRotation.Decision
import BackupRotation.Proofs.Ages
/-! Ages against the order of times. In the order of times a leap second comes before the next minute, but a
clock without leap seconds shows the two as one second, and days are counted on that clock where the anchor is
shown at midnight. So a leap second can count as younger than a later time, even than the anchor. -/
namespace BackupRotation

namespace Instant

/-- The second that a clock without leap seconds shows. -/
def dialSecond (t : Instant) : Int := if t.IsLeap then t.seconds + 1 else t.seconds

def dialNanos (t : Instant) : Int := if t.IsLeap then t.nanos - 1000000000 else t.nanos

def Midnight (t : Instant) : Prop := t.dialSecond % 86400 = 0
instance (t : Instant) : Decidable t.Midnight := by unfold Midnight; infer_instance

/-- Measured from the anchor `newer` is `days` old and `older` is not yet: `older` is a leap second at the end
of a day, `newer` lies in the second after it, and the anchor is shown at midnight that many days later, at a
part of the second between theirs. -/
structure Overtakes (anchor older newer : Instant) (days : Int) : Prop where
  leap : older.IsLeap
  next : newer.seconds = older.seconds + 1
  midnight : anchor.Midnight
  later : newer.seconds + 86400 * days = anchor.dialSecond
  between : newer.nanos ≤ anchor.dialNanos ∧ anchor.dialNanos < older.dialNanos

section Elapsed
variable {anchor t : Instant} (n : Int)

theorem elapsedOrder (aside : ¬ anchor.Midnight) : n * dayNanos ≤ elapsed t anchor ↔
    t.seconds + 86400 * n < anchor.seconds ∨
      t.seconds + 86400 * n = anchor.seconds ∧ t.nanos ≤ anchor.nanos := by
  obtain ⟨_, _, _, minute⟩ := anchor.admissible
  obtain ⟨_, _, _, minute'⟩ := t.admissible
  unfold Midnight dialSecond at aside
  unfold elapsed dayNanos secondOfDay IsLeap at *
  simp only
  split_ifs at * <;> omega

theorem elapsedDial (midnight : anchor.Midnight) : n * dayNanos ≤ elapsed t anchor ↔
    t.dialSecond + 86400 * n < anchor.dialSecond ∨
      t.dialSecond + 86400 * n = anchor.dialSecond ∧ t.dialNanos ≤ anchor.dialNanos := by
  obtain ⟨_, _, _, minute⟩ := anchor.admissible
  obtain ⟨_, _, _, minute'⟩ := t.admissible
  unfold Midnight at midnight
  unfold elapsed dayNanos dialSecond dialNanos secondOfDay IsLeap at *
  simp only
  split_ifs at * <;> omega

end Elapsed

theorem dialCases (t : Instant) :
    (t.IsLeap ∧ t.dialSecond = t.seconds + 1 ∧ t.dialNanos = t.nanos - 1000000000 ∧
      1000000000 ≤ t.nanos ∧ t.seconds % 60 = 59) ∨
    (¬ t.IsLeap ∧ t.dialSecond = t.seconds ∧ t.dialNanos = t.nanos ∧ t.nanos < 1000000000) := by
  obtain ⟨_, _, _, minute⟩ := t.admissible
  by_cases leap : t.IsLeap
  · exact .inl ⟨leap, if_pos leap, if_pos leap, leap, minute leap⟩
  · exact .inr ⟨leap, if_neg leap, if_neg leap, Nat.not_le.mp leap⟩

theorem overtakesIff (anchor : Instant) {older newer : Instant} (n : Int) (order : older ≤ newer) :
    Overtakes anchor older newer n ↔
      n * dayNanos ≤ elapsed newer anchor ∧ elapsed older anchor < n * dayNanos := by
  change ¬ Before newer older at order
  unfold Before at order
  rw [← Int.not_le]
  by_cases midnight : anchor.Midnight
  · rw [elapsedDial n midnight, elapsedDial n midnight]
    have late := dialCases newer
    constructor
    · intro h
      obtain ⟨leap, next, _, later, between⟩ := h
      obtain ⟨_, shown⟩ | ⟨plain, _⟩ := dialCases older
      · omega
      · exact absurd leap plain
    · intro h
      -- only a leap second can be shown later than what follows it, and only than the next second
      obtain ⟨leap, shown⟩ | ⟨_, shown⟩ := dialCases older
      · have next : newer.seconds = older.seconds + 1 := by omega
        exact ⟨leap, next, midnight, by omega, by omega⟩
      · omega
  · rw [elapsedOrder n midnight, elapsedOrder n midnight]
    constructor
    · intro h
      exact absurd h.midnight midnight
    · omega

theorem overtakesAges {anchor older newer : Instant} {n : Int} (h : Overtakes anchor older newer n) :
    elapsed newer anchor = n * dayNanos + (anchor.dialNanos - newer.nanos) ∧
      elapsed older anchor = n * dayNanos + (anchor.dialNanos - older.dialNanos) := by
  obtain ⟨leap, next, midnight, later, _⟩ := h
  obtain ⟨_, shown⟩ | ⟨plain, _⟩ := dialCases older
  · have last : older.seconds % 86400 = 86399 := by
      unfold Midnight at midnight
      omega
    have first : newer.seconds % 86400 = 0 := by omega
    have plain : ¬ newer.IsLeap := by
      intro leap'
      have minute := newer.admissible.2.2.2 leap'
      omega
    unfold Midnight at midnight
    obtain ⟨leap', shown'⟩ | ⟨plain', shown'⟩ := dialCases anchor
    · have turn : anchor.seconds % 86400 = 86399 := by omega
      simp only [elapsed, secondOfDay, dayNanos, last, first, turn, plain, and_false, if_false]
      omega
    · have turn : anchor.seconds % 86400 = 0 := by omega
      simp only [elapsed, secondOfDay, dayNanos, last, first, turn, plain, plain', and_false, if_false]
      omega
  · exact absurd leap plain

theorem dialWithin (t : Instant) : 0 ≤ t.dialNanos ∧ t.dialNanos < 1000000000 := by
  have inside := t.admissible.2.2.1
  have shown := dialCases t
  omega

end Instant

namespace Tier
variable {t : Tier} {anchor created older newer : Instant}

theorem widthDays (t : Tier) : t.widthNanos = t.days * Instant.dayNanos := rfl

theorem coversAge {i : Nat} {rest : Int} (age : Instant.elapsed created anchor = i * t.widthNanos + rest)
    (some : 0 ≤ rest) (short : rest < t.widthNanos) : t.Covers anchor i created := by
  have whole : 0 ≤ i * t.widthNanos :=
    Int.mul_nonneg (Int.natCast_nonneg i) (Int.le_of_lt t.widthNanosPositive)
  apply coversIff.mpr
  rw [age, Int.add_mul, Int.one_mul]
  omega

theorem leftOutIff (order : created ≤ anchor) : t.window? anchor created = none ↔
    Instant.Overtakes anchor created anchor 0 ∧ anchor.nanos + 1000000 ≤ created.dialNanos := by
  have reversed := Instant.overtakesIff anchor 0 order
  have age : t.window? anchor created = none ↔ Instant.elapsed created anchor ≤ -1000000 := by
    rw [← Instant.millisNegative]
    simp [window?]
  have ages (overtakes : Instant.Overtakes anchor created anchor 0) :
      Instant.elapsed created anchor = anchor.nanos - created.dialNanos := by
    have both := Instant.overtakesAges overtakes
    rw [Instant.elapsed_self] at both
    omega
  rw [Instant.elapsed_self] at reversed
  rw [age]
  constructor
  · intro young
    have overtakes := reversed.mpr (by omega)
    have measured := ages overtakes
    exact ⟨overtakes, by omega⟩
  · intro h
    have measured := ages h.1
    omega

theorem overtakenIff (order : older ≤ newer) :
    (∃ i j, t.window? anchor newer = some i ∧ t.window? anchor older = some j ∧ j < i) ↔
      ∃ n : Nat, 0 < n ∧ Instant.Overtakes anchor older newer (n * t.days) := by
  have width := t.widthNanosPositive
  constructor
  · intro h
    obtain ⟨i, j, windowNew, windowOld, below⟩ := h
    have ageNew := (coversIff.mp (windowCovers.mp windowNew)).2.1 (by omega)
    have ageOld := (coversIff.mp (windowCovers.mp windowOld)).2.2
    have stop : ((j : Int) + 1) * t.widthNanos ≤ i * t.widthNanos :=
      Int.mul_le_mul_of_nonneg_right (by omega) (Int.le_of_lt width)
    have reversed := (Instant.overtakesIff anchor (i * t.days) order).mpr
    rw [Int.mul_assoc, ← widthDays] at reversed
    exact ⟨i, by omega, reversed ⟨ageNew, by omega⟩⟩
  · intro h
    obtain ⟨n, some, overtakes⟩ := h
    obtain ⟨ageNew, ageOld⟩ := Instant.overtakesAges overtakes
    rw [Int.mul_assoc, ← widthDays] at ageNew ageOld
    obtain ⟨m, rfl⟩ := Nat.exists_eq_add_of_lt some
    have between := overtakes.between
    have inside := older.dialWithin
    have inside' := anchor.dialWithin
    have long : (1000000000 : Int) < t.widthNanos := by cases t <;> decide
    have coverNew : t.Covers anchor (0 + m + 1) newer := coversAge ageNew (by omega) (by omega)
    have before : Instant.elapsed older anchor =
        m * t.widthNanos + (t.widthNanos + (anchor.dialNanos - older.dialNanos)) := by
      rw [ageOld]
      push_cast
      ring
    have coverOld : t.Covers anchor m older := coversAge before (by omega) (by omega)
    exact ⟨0 + m + 1, m, windowCovers.mpr coverNew, windowCovers.mpr coverOld, by omega⟩

/-- Each backup has a window, and none has a later one than a backup that is no newer. -/
structure InAgeOrder (t : Tier) (anchor : Instant) (us : List Artifact) : Prop where
  inside : ∀ a ∈ us, ∃ i, t.window? anchor a.created = some i
  rising : ∀ a ∈ us, ∀ b ∈ us, b.created ≤ a.created → ∀ i j,
    t.window? anchor a.created = some i → t.window? anchor b.created = some j → i ≤ j

variable {us : List Artifact}

theorem insideIff (below : ∀ a ∈ us, a.created ≤ anchor) :
    (∀ a ∈ us, ∃ i, t.window? anchor a.created = some i) ↔ ∀ a ∈ us,
      ¬ (Instant.Overtakes anchor a.created anchor 0 ∧ anchor.nanos + 1000000 ≤ a.created.dialNanos) := by
  refine forall₂_congr fun a member => ?_
  rw [← leftOutIff (t := t) (below a member), ← ne_eq, Option.ne_none_iff_exists']

theorem risingIff :
    (∀ a ∈ us, ∀ b ∈ us, b.created ≤ a.created → ∀ i j,
      t.window? anchor a.created = some i → t.window? anchor b.created = some j → i ≤ j) ↔
    ∀ a ∈ us, ∀ b ∈ us, ∀ n : Nat, 0 < n → ¬ Instant.Overtakes anchor b.created a.created (n * t.days) := by
  refine forall₂_congr fun a _ => forall₂_congr fun b _ => ?_
  constructor
  · intro rising n some overtakes
    have older : b.created ≤ a.created := by
      apply Instant.leOfLt
      have next := overtakes.next
      exact .inl (by omega)
    obtain ⟨i, j, windowNew, windowOld, below⟩ := (overtakenIff older).mpr ⟨n, some, overtakes⟩
    exact Nat.not_le.mpr below (rising older i j windowNew windowOld)
  · intro none older i j windowNew windowOld
    by_contra below
    obtain ⟨n, some, overtakes⟩ := (overtakenIff older).mp ⟨i, j, windowNew, windowOld, Nat.not_le.mp below⟩
    exact none n some overtakes

/-- Leap seconds without parts of a second, as names give them, are never out of order. -/
theorem inAgeOrderWhole (anchored : Artifact.Anchored us anchor)
    (whole : ∀ a ∈ us, a.created.IsLeap → a.created.dialNanos = 0) : t.InAgeOrder anchor us := by
  have apart {newer : Instant} {n : Int} : ∀ a ∈ us, ¬ Instant.Overtakes anchor a.created newer n := by
    intro a member overtakes
    have between := overtakes.between
    have zero := whole a member overtakes.leap
    omega
  exact ⟨(insideIff anchored.2).mpr fun a member h => apart a member h.1,
    risingIff.mpr fun _ _ b member _ _ => apart b member⟩

end Tier

namespace Decision
open Artifact

/-- Ages in a rotation keep to the order of times unless a leap second at the end of a day overtakes the
anchor, by a millisecond or more, or another time, where a window of the tier begins. -/
theorem agesOrdered (as : List Artifact) {anchor : Instant} (known : anchor? (firsts as) = some anchor)
    (t : Tier) : t.InAgeOrder anchor (firsts as) ↔
      (∀ a ∈ firsts as, ¬ (Instant.Overtakes anchor a.created anchor 0 ∧
        anchor.nanos + 1000000 ≤ a.created.dialNanos)) ∧
      ∀ a ∈ firsts as, ∀ b ∈ firsts as, ∀ n : Nat, 0 < n →
        ¬ Instant.Overtakes anchor b.created a.created (n * t.days) := by
  have below := (anchorIff.mp known).2
  rw [← Tier.insideIff (t := t) below, ← Tier.risingIff]
  constructor
  · intro ordered
    exact ⟨ordered.inside, ordered.rising⟩
  · intro h
    exact ⟨h.1, h.2⟩

theorem agesOrderedWeekly :
    let as : List Artifact := [⟨"a", 1, ⟨86399, 1500000000, by decide⟩⟩, ⟨"b", 2, ⟨86400, 100, by decide⟩⟩,
      ⟨"c", 3, ⟨691199, 1200000000, by decide⟩⟩]
    let anchor : Instant := ⟨691199, 1200000000, by decide⟩
    anchor? (firsts as) = some anchor ∧ ¬ Tier.weekly.InAgeOrder anchor (firsts as) := by
  intro as anchor
  have known : anchor? (firsts as) = some anchor := by decide
  have a : (⟨"a", 1, ⟨86399, 1500000000, by decide⟩⟩ : Artifact) ∈ firsts as := by decide
  have b : (⟨"b", 2, ⟨86400, 100, by decide⟩⟩ : Artifact) ∈ firsts as := by decide
  refine ⟨known, fun ordered => ?_⟩
  exact ((agesOrdered as known .weekly).mp ordered).2 _ b _ a 1 (by decide)
    ⟨by decide, by decide, by decide, by decide, by decide⟩

theorem leapSecondOvertakes :
    let as : List Artifact := [⟨"a", 1, ⟨172799, 1500000000, by decide⟩⟩, ⟨"b", 2, ⟨172800, 0, by decide⟩⟩,
      ⟨"l", 3, ⟨345599, 1500000000, by decide⟩⟩, ⟨"c", 4, ⟨345600, 0, by decide⟩⟩]
    let anchor : Instant := ⟨345600, 0, by decide⟩
    anchor? (firsts as) = some anchor ∧
      (explain as (.smart 3 0 0 0)).map Verdict.reasons =
        [[.slot .daily 1], [.slot .daily 2], [], [.slot .daily 0]] ∧
      (firsts as).map (fun a => Tier.daily.window? anchor a.created) = [some 1, some 2, none, some 0] ∧
      ¬ Tier.daily.InAgeOrder anchor (firsts as) := by
  intro as anchor
  have a : (⟨"a", 1, ⟨172799, 1500000000, by decide⟩⟩ : Artifact) ∈ firsts as := by decide
  have b : (⟨"b", 2, ⟨172800, 0, by decide⟩⟩ : Artifact) ∈ firsts as := by decide
  refine ⟨by decide, by decide +kernel, by decide, fun ordered => ?_⟩
  have early := ordered.rising _ b _ a (by decide) 2 1 (by decide) (by decide)
  exact absurd early (by decide)

end Decision
end BackupRotation
