import BackupRotation.Binary64.Basic
import Mathlib.Tactic
/-! Rounding to the nearest keeps the order. A quotient without a remainder stays what it is, and so does
a number of 53 bits; whatever lies on one side of it is not rounded past it. A quotient that is cut off
toward zero is negative only from a whole divisor on. -/
namespace BackupRotation

theorem truncatedNegative {n d : Int} (positive : 0 < d) : n.tdiv d < 0 ↔ n ≤ -d := by
  rcases Int.lt_or_le n 0 with back | forth
  · have mirrored : n.tdiv d = -(-n / d) := by
      rw [← Int.tdiv_eq_ediv_of_nonneg (by omega), Int.neg_tdiv, Int.neg_neg]
    have reached : 1 ≤ -n / d ↔ 1 * d ≤ -n := Int.le_ediv_iff_mul_le positive
    rw [mirrored]
    omega
  · have cut := Int.ediv_nonneg forth positive.le
    rw [Int.tdiv_eq_ediv_of_nonneg forth]
    omega

section Quotients
variable {m n q d : Nat} (positive : 0 < d)
include positive

theorem roundDivWhole (q : Nat) : roundDiv (q * d) d = q := by
  simp [roundDiv, Nat.mul_div_cancel q positive, positive]

theorem roundDivRises (order : m ≤ n) : roundDiv m d ≤ roundDiv n d := by
  obtain ⟨_, above⟩ := roundDivNear m positive
  obtain ⟨below, _⟩ := roundDivNear n positive
  by_contra back
  have next := Nat.mul_le_mul_right d (Nat.lt_of_not_le back)
  rw [Nat.succ_mul] at next
  -- only a half could be rounded up for the one and down for the other, and then the two are the same
  obtain rfl : m = n := by omega
  exact back le_rfl

theorem roundDivTie (half : 2 * n = 2 * (roundDiv n d * d) + d) : roundDiv n d % 2 = 0 := by
  have cut := Nat.div_add_mod n d
  rw [Nat.mul_comm] at cut
  have less := Nat.mod_lt n positive
  have next : (n / d + 1) * d = n / d * d + d := Nat.succ_mul _ _
  unfold roundDiv at half ⊢
  dsimp only at half ⊢
  split_ifs at half ⊢ with down up even
  · omega
  · omega
  · exact even
  · omega

theorem evenReached (even : q % 2 = 0) : q ≤ roundDiv n d ↔ 2 * (q * d) ≤ 2 * n + d := by
  obtain ⟨below, above⟩ := roundDivNear n positive
  constructor
  · intro reached
    have grown := Nat.mul_le_mul_right d reached
    omega
  · intro near
    by_contra missed
    have next := Nat.mul_le_mul_right d (Nat.lt_of_not_le missed)
    rw [Nat.succ_mul] at next
    -- what is near and still missed lies half way below `q`, and the even neighbour of a half is `q`
    have half : 2 * n = 2 * (roundDiv n d * d) + d := by omega
    have least := roundDivTie positive half
    have places : (roundDiv n d + 1) * d = q * d := by
      rw [Nat.succ_mul]
      omega
    have neighbour := Nat.eq_of_mul_eq_mul_right positive places
    omega

end Quotients

namespace Binary64
variable {m n : Nat}

/-- The place of the last of 53 bits. -/
def lastPlace (n : Nat) : Nat := 2 ^ (n.log2 - 52)

theorem lastPositive (n : Nat) : 0 < lastPlace n := Nat.two_pow_pos _

theorem roundNatPlace (n : Nat) : roundNat n = roundDiv n (lastPlace n) * lastPlace n := by
  unfold roundNat lastPlace
  split
  · rename_i short
    have place : n.log2 - 52 = 0 := by
      rcases Nat.eq_zero_or_pos n with rfl | some
      · rfl
      · have := (Nat.log2_lt some.ne').mpr short
        omega
    have whole := roundDivWhole Nat.one_pos n
    rw [Nat.mul_one] at whole
    rw [place, Nat.pow_zero, whole, Nat.mul_one]
  · rfl

theorem powerKept {e : Nat} (reached : n.log2 ≤ e) : roundDiv (2 ^ e) (lastPlace n) * lastPlace n = 2 ^ e := by
  have places : 2 ^ (e - (n.log2 - 52)) * lastPlace n = 2 ^ e := by
    rw [lastPlace, Nat.pow_sub_mul_pow 2 (by omega)]
  rw [← places, roundDivWhole (lastPositive n)]

theorem roundNatPower (e : Nat) : roundNat (2 ^ e) = 2 ^ e := by
  rw [roundNatPlace, powerKept Nat.log2_two_pow.le]

theorem roundNatShort (short : n ≤ 2 ^ 53) : roundNat n = n := by
  rcases short.lt_or_eq with less | rfl
  · exact if_pos less
  · exact roundNatPower 53

theorem roundNatAbove (some : n ≠ 0) : 2 ^ n.log2 ≤ roundNat n := by
  have rises := roundDivRises (lastPositive n) (Nat.log2_self_le some)
  rw [roundNatPlace, ← powerKept le_rfl]
  exact Nat.mul_le_mul_right _ rises

theorem roundNatBelow (n : Nat) : roundNat n ≤ 2 ^ (n.log2 + 1) := by
  have rises := roundDivRises (lastPositive n) (Nat.lt_log2_self (n := n)).le
  rw [roundNatPlace, ← powerKept (Nat.le_succ _)]
  exact Nat.mul_le_mul_right _ rises

theorem roundNatRises (order : m ≤ n) : roundNat m ≤ roundNat n := by
  rcases Nat.eq_zero_or_pos m with rfl | some
  · exact Nat.zero_le _
  have filled : n ≠ 0 := by omega
  have logs : m.log2 ≤ n.log2 := (Nat.le_log2 filled).mpr ((Nat.log2_self_le some.ne').trans order)
  rcases logs.lt_or_eq with apart | same
  · calc roundNat m ≤ 2 ^ (m.log2 + 1) := roundNatBelow m
      _ ≤ 2 ^ n.log2 := Nat.pow_le_pow_right (by decide) apart
      _ ≤ roundNat n := roundNatAbove filled
  · have place : lastPlace m = lastPlace n := by rw [lastPlace, lastPlace, same]
    rw [roundNatPlace, roundNatPlace n, place]
    exact Nat.mul_le_mul_right _ (roundDivRises (lastPositive n) order)

end Binary64
end BackupRotation
