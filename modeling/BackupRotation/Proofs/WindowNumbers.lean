import BackupRotation.Policy.Basic
import BackupRotation.Proofs.ExactWindows
/-! Ages and windows in numbers of a fixed width: milliseconds in 64 bits with a sign, windows in 32 bits
without one. No two points in time lie so far apart that either runs out, so a window is too old only for
a count, and for the largest count none is. -/
namespace BackupRotation

namespace Instant
variable (a b : Instant)

/-- Milliseconds from before the first point in time to after the last one. -/
def spanMillis : Int := 16544868105602000

theorem elapsedWithin : -(spanMillis * 1000000) ≤ elapsed a b ∧ elapsed a b ≤ spanMillis * 1000000 := by
  obtain ⟨firstA, lastA, shortA, _⟩ := a.admissible
  obtain ⟨firstB, lastB, shortB, _⟩ := b.admissible
  unfold firstSecond at firstA firstB
  unfold lastSecond at lastA lastB
  simp only [elapsed, spanMillis]
  split_ifs <;> omega

theorem millisWithin : -spanMillis ≤ elapsedMillis a b ∧ elapsedMillis a b ≤ spanMillis := by
  obtain ⟨least, greatest⟩ := elapsedWithin a b
  have lower := Int.tdiv_le_tdiv (c := 1000000) (by decide) least
  have upper := Int.tdiv_le_tdiv (c := 1000000) (by decide) greatest
  rw [Int.neg_tdiv, Int.mul_tdiv_cancel _ (by decide)] at lower
  rw [Int.mul_tdiv_cancel _ (by decide)] at upper
  exact ⟨lower, upper⟩

/-- The age in 64 bits; one beyond them would wrap around. -/
def millis64 : Int64 := Int64.ofInt (elapsedMillis a b)

theorem millisExact : (millis64 a b).toInt = elapsedMillis a b := by
  obtain ⟨lower, upper⟩ := millisWithin a b
  unfold spanMillis at lower upper
  exact Int64.toInt_ofInt_of_le (by omega) (by omega)

end Instant

namespace Tier
open Instant
variable {t : Tier} {a b anchor created : Instant} {i : Nat}

def width64 (t : Tier) : Int64 := Int64.ofNat t.widthMillis

theorem widthExact (t : Tier) : t.width64.toInt = t.widthMillis := by cases t <;> rfl

/-- What an age comes to: it is negative, or the number of its window fits 32 bits, or it does not. -/
inductive Placement where
  | ahead
  | window (n : UInt32)
  | beyond
  deriving DecidableEq, Repr

def placement (t : Tier) (age : Int64) : Placement :=
  if age < 0 then .ahead
  else
    let n := (age / t.width64).toInt
    if 0 ≤ n ∧ n < 4294967296 then .window (UInt32.ofNat n.toNat) else .beyond

theorem windowBelow (age : 0 ≤ elapsedMillis a b) :
    elapsedMillis a b / t.widthMillis < Policy.largestCount.toNat := by
  have upper := (millisWithin a b).2
  have day : (86400000 : Int) ≤ t.widthMillis := by cases t <;> decide
  have largest : (Policy.largestCount.toNat : Int) = 4294967295 := rfl
  refine Int.ediv_lt_of_lt_mul (by omega) ?_
  rw [largest]
  unfold spanMillis at upper
  omega

theorem quotientExact (age : 0 ≤ elapsedMillis created anchor) :
    (millis64 created anchor / t.width64).toInt = elapsedMillis created anchor / t.widthMillis := by
  have positive : t.width64 ≠ -1 := by cases t <;> decide
  rw [Int64.toInt_div_of_ne_right _ _ positive, millisExact, widthExact, Int.tdiv_eq_ediv_of_nonneg age]

theorem windowNone : t.window? anchor created = none ↔ elapsedMillis created anchor < 0 := by
  simp [window?]

theorem windowSome (found : t.window? anchor created = some i) : 0 ≤ elapsedMillis created anchor ∧
    elapsedMillis created anchor / t.widthMillis = i ∧ i < Policy.largestCount.toNat := by
  unfold window? at found
  by_cases negative : elapsedMillis created anchor < 0
  · simp [negative] at found
  · have age := Int.not_lt.mp negative
    have below := windowBelow (t := t) age
    obtain ⟨n, same⟩ := Int.eq_ofNat_of_zero_le age
    simp only [same, Int.natCast_nonneg, not_lt.mpr, if_false, Int.toNat_natCast, Option.some.injEq] at found
    rw [same, ← Int.natCast_ediv, found] at below ⊢
    exact ⟨Int.natCast_nonneg n, rfl, Int.ofNat_lt.mp below⟩

theorem placementAhead (none : t.window? anchor created = none) :
    t.placement (millis64 created anchor) = .ahead := by
  have negative : millis64 created anchor < 0 := by
    rw [Int64.lt_iff_toInt_lt, millisExact, Int64.toInt_zero]
    exact windowNone.mp none
  exact if_pos negative

theorem placementWindow (found : t.window? anchor created = some i) :
    t.placement (millis64 created anchor) = .window (UInt32.ofNat i) := by
  obtain ⟨age, quotient, below⟩ := windowSome found
  have largest : Policy.largestCount.toNat = 4294967295 := rfl
  have nonnegative : ¬millis64 created anchor < 0 := by
    rw [Int64.lt_iff_toInt_lt, millisExact, Int64.toInt_zero]
    exact Int.not_lt.mpr age
  have fits : 0 ≤ (i : Int) ∧ (i : Int) < 4294967296 := by omega
  simp only [placement, if_neg nonnegative, quotientExact age, quotient, if_pos fits, Int.toNat_natCast]

end Tier

namespace Slot
open Instant

/-- A candidate as it comes out of numbers of a fixed width. -/
def candidate32? (anchor : Instant) (t : Tier) (count : UInt32) (a : Artifact) (position : Nat) :
    Option Candidate :=
  match t.placement (millis64 a.created anchor) with
  | .window n => if n < count then some ⟨n.toNat, position, a.created⟩ else none
  | .ahead => none
  | .beyond => none

variable {anchor : Instant} {t : Tier} {a : Artifact} {position : Nat}

theorem candidateExact (anchor : Instant) (t : Tier) (count : UInt32) (a : Artifact) (position : Nat) :
    candidate32? anchor t count a position = candidate? anchor t count.toNat a position := by
  unfold candidate32? candidate?
  cases found : t.window? anchor a.created with
  | none => simp only [Tier.placementAhead found]
  | some i =>
    have below := (Tier.windowSome found).2.2
    have largest : Policy.largestCount.toNat = 4294967295 := rfl
    have fits : i < 4294967296 := by omega
    have number : (UInt32.ofNat i).toNat = i := UInt32.toNat_ofNat_of_lt' fits
    simp only [Tier.placementWindow found, UInt32.lt_iff_toNat_lt, number]

theorem candidateNone : candidate? anchor t Policy.largestCount.toNat a position = none ↔
    elapsedMillis a.created anchor < 0 := by
  rw [← Tier.windowNone (t := t), candidate?]
  cases found : t.window? anchor a.created with
  | none => simp only
  | some i =>
    have below := (Tier.windowSome found).2.2
    simp only [if_pos below, reduceCtorEq]

/-- Between any two points in time the milliseconds fit 64 bits, and a window fits 32 bits with room for
one more. So numbers of a fixed width give the candidates there are, and the largest count leaves out
only what is newer than the anchor: every window that a backup lies in has its slot. -/
theorem windowsFit (t : Tier) :
    (∀ a b : Instant, Int64.minValue.toInt ≤ elapsedMillis a b ∧ elapsedMillis a b ≤ Int64.maxValue.toInt ∧
      (0 ≤ elapsedMillis a b → elapsedMillis a b / t.widthMillis < Policy.largestCount.toNat) ∧
      t.placement (millis64 a b) ≠ .beyond) ∧
    (∀ anchor count a position,
      candidate32? anchor t count a position = candidate? anchor t count.toNat a position) ∧
    ∀ anchor, (∀ a position, candidate? anchor t Policy.largestCount.toNat a position = none ↔
        elapsedMillis a.created anchor < 0) ∧
      ∀ as i, i ∈ (fill as anchor t Policy.largestCount.toNat).map Slot.index ↔
        ∃ a ∈ as, t.Covers anchor i a.created := by
  refine ⟨fun a b => ?_, fun anchor count a position => candidateExact anchor t count a position,
    fun anchor => ⟨fun a position => candidateNone, fun as i => ?_⟩⟩
  · obtain ⟨lower, upper⟩ := millisWithin a b
    unfold spanMillis at lower upper
    rw [Int64.toInt_minValue, Int64.toInt_maxValue]
    refine ⟨by omega, by omega, Tier.windowBelow, ?_⟩
    cases found : t.window? b a with
    | none => simp [Tier.placementAhead found]
    | some i => simp [Tier.placementWindow found]
  · rw [(fillCovers as anchor t _).filled i, and_iff_right_iff_imp]
    intro held
    obtain ⟨a, _, covered⟩ := held
    exact (Tier.windowSome (Tier.windowCovers.mpr covered)).2.2

end Slot
end BackupRotation
