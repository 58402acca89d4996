import BackupRotation.Proofs.Roundings
import BackupRotation.Proofs.Windows
/-! Ages in nanoseconds, in the milliseconds in which they are counted, and in windows. Parts of a
millisecond are dropped toward zero, so only a whole one makes an age negative. -/
namespace BackupRotation

namespace Instant

def dayNanos : Int := 86400000000000

variable {a b c : Instant}

theorem millisReach {n : Int} (some : 0 < n) : n ≤ elapsedMillis a b ↔ n * 1000000 ≤ elapsed a b := by
  unfold elapsedMillis
  rcases Int.lt_or_le (elapsed a b) 0 with back | forth
  · have none : (elapsed a b).tdiv 1000000 ≤ Int.tdiv 0 1000000 :=
      Int.tdiv_le_tdiv (by decide) (Int.le_of_lt back)
    rw [Int.zero_tdiv] at none
    omega
  · rw [Int.tdiv_eq_ediv_of_nonneg forth]
    omega

theorem millisNegative : elapsedMillis a b < 0 ↔ elapsed a b ≤ -1000000 := truncatedNegative (by decide)

theorem elapsedGrows (long : 3000 ≤ elapsedMillis b c) :
    elapsedMillis a b ≤ elapsedMillis a c := by
  have apart := (millisReach (by decide)).mp long
  have leap : elapsed b c ≤ elapsed a c - elapsed a b + 3000000000 := by
    unfold elapsed
    simp only
    split_ifs <;> omega
  exact Int.tdiv_le_tdiv (by decide) (by omega)

section Whole
variable (ha : ¬ a.IsLeap) (hb : ¬ b.IsLeap)
include ha hb

theorem elapsedWhole : elapsed a b =
    (b.seconds - a.seconds) * 1000000000 + ((b.nanos : Int) - a.nanos) := by
  simp [elapsed, ha, hb]

theorem elapsedAdd (hc : ¬ c.IsLeap) : elapsed a c = elapsed a b + elapsed b c := by
  rw [elapsedWhole ha hb, elapsedWhole hb hc, elapsedWhole ha hc]
  omega

theorem elapsedPositive (less : a < b) : 0 < elapsed a b := by
  rw [elapsedWhole ha hb]
  change Before a b at less
  unfold Before at less
  unfold IsLeap at ha hb
  omega

theorem elapsedNonnegative (order : a ≤ b) : 0 ≤ elapsed a b := by
  by_cases less : a < b
  · exact Int.le_of_lt (elapsedPositive ha hb less)
  · rw [le_antisymm order less, elapsed_self]

end Whole

end Instant

namespace Tier
variable {t : Tier} {anchor created : Instant} {i j : Nat}

def widthNanos (t : Tier) : Int := t.days * Instant.dayNanos

theorem widthNanosPositive (t : Tier) : 0 < t.widthNanos := by cases t <;> decide

theorem widthMillisNanos (t : Tier) : (t.widthMillis : Int) * 1000000 = t.widthNanos := by
  simp only [widthMillis, widthSeconds, widthNanos, Instant.dayNanos, Int.natCast_mul]
  omega

theorem coversIff : t.Covers anchor i created ↔ -1000000 < Instant.elapsed created anchor ∧
    (0 < i → i * t.widthNanos ≤ Instant.elapsed created anchor) ∧
    Instant.elapsed created anchor < (i + 1) * t.widthNanos := by
  have width : (0 : Int) < t.widthMillis := by exact_mod_cast t.widthPositive
  have sign := Instant.millisNegative (a := created) (b := anchor)
  have reach {n : Nat} (some : 0 < n) :
      n * t.widthMillis ≤ Instant.elapsedMillis created anchor ↔
        n * t.widthNanos ≤ Instant.elapsed created anchor := by
    have long : (0 : Int) < n * t.widthMillis := Int.mul_pos (by omega) width
    rw [Instant.millisReach long, Int.mul_assoc, widthMillisNanos]
  have stop := reach (Nat.succ_pos i)
  push_cast at stop
  have start : i * t.widthMillis ≤ Instant.elapsedMillis created anchor ↔
      (0 < i → i * t.widthNanos ≤ Instant.elapsed created anchor) ∧
        (i = 0 → 0 ≤ Instant.elapsedMillis created anchor) := by
    cases i with
    | zero => simp
    | succ i => simpa using reach (Nat.succ_pos i)
  simp only [Covers]
  omega

theorem coversRise {earlier later : Instant} (hi : t.Covers earlier i created)
    (hj : t.Covers later j created)
    (grows : Instant.elapsedMillis created earlier ≤ Instant.elapsedMillis created later) :
    i ≤ j := by
  have less : (i : Int) * t.widthMillis < (j + 1) * t.widthMillis :=
    Int.lt_of_le_of_lt (Int.le_trans hi.2.1 grows) hj.2.2
  have := Int.lt_of_mul_lt_mul_right less (Int.natCast_nonneg _)
  omega

theorem coversApart (hi : t.Covers anchor i created) (other : i ≠ 0) :
    (t.widthMillis : Int) ≤ Instant.elapsedMillis created anchor := by
  have one : (1 : Int) ≤ i := by omega
  have := Int.mul_le_mul_of_nonneg_right one (Int.natCast_nonneg t.widthMillis)
  have := hi.2.1
  omega

theorem coversOfNonnegative (t : Tier) (age : 0 ≤ Instant.elapsedMillis created anchor) :
    ∃ i, t.Covers anchor i created := by
  have filled : t.window? anchor created ≠ none := by
    simp [window?, Int.not_lt.mpr age]
  obtain ⟨i, window⟩ := Option.ne_none_iff_exists'.mp filled
  exact ⟨i, windowCovers.mp window⟩

theorem widthLong (t : Tier) : (3000 : Int) ≤ t.widthMillis := by cases t <;> decide

end Tier

end BackupRotation
