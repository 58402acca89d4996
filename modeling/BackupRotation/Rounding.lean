/-! Division of natural numbers rounded to the nearest, a half to the even neighbour. -/
namespace BackupRotation

def roundDiv (num den : Nat) : Nat :=
  let q := num / den
  let r := num % den
  if 2 * r < den then q
  else if den < 2 * r then q + 1
  else if q % 2 = 0 then q else q + 1

theorem roundDivNear (num : Nat) {den : Nat} (h : 0 < den) :
    2 * num ≤ 2 * (roundDiv num den * den) + den ∧ 2 * (roundDiv num den * den) ≤ 2 * num + den := by
  have hd := Nat.div_add_mod num den
  have hr := Nat.mod_lt num h
  have hc : den * (num / den) = num / den * den := Nat.mul_comm _ _
  simp only [roundDiv]
  split
  · omega
  · split
    · have : (num / den + 1) * den = num / den * den + den := by rw [Nat.add_mul, Nat.one_mul]
      omega
    · split
      · omega
      · have : (num / den + 1) * den = num / den * den + den := by rw [Nat.add_mul, Nat.one_mul]
        omega

example : roundDiv 5 2 = 2 ∧ roundDiv 7 2 = 4 := by decide

end BackupRotation
