import BackupRotation.Measure
import BackupRotation.Proofs.Numerals
import BackupRotation.Proofs.Roundings
import BackupRotation.Text.Split
/-! Ages read back from their texts, as a number of whole units rounded down. Parts of a second are dropped
before an age is taken for negative, so the future begins a whole second ahead. -/
namespace BackupRotation

namespace Measure
open Text

def AgeUnit.all : List AgeUnit := [.seconds, .minutes, .hours, .days, .weeks]

def AgeUnit.ofName? (name : List Char) : Option AgeUnit := all.find? fun u => u.name.toList = name

structure ShownAge where
  count : Nat
  unit : AgeUnit
  deriving DecidableEq, Repr

def readAge? (cs : List Char) : Option ShownAge := do
  let (number, rest) ← splitFirst? ' ' cs
  let (name, last) ← splitFirst? ' ' rest
  let count ← natural? number
  let unit ← AgeUnit.ofName? name
  if last = "ago".toList then some ⟨count, unit⟩ else none

def AgeUnit.nanos (u : AgeUnit) : Int := u.length * 1000000000

/-- The largest unit that an age has reached, or seconds if it has reached none. -/
def AgeUnit.LargestIn (u : AgeUnit) (age : Int) : Prop :=
  (u = .seconds ∨ u.nanos ≤ age) ∧ ∀ v : AgeUnit, v.nanos ≤ age → v.nanos ≤ u.nanos

section Units

theorem ageUnitNamed (u : AgeUnit) : AgeUnit.ofName? u.name.toList = some u := by cases u <;> decide

theorem nameWhole (u : AgeUnit) : ' ' ∉ u.name.toList := by cases u <;> decide

theorem lengthPositive (u : AgeUnit) : 0 < u.length := by cases u <;> decide

theorem ageUnitLargest (s : Nat) : (ageUnit s = .seconds ∨ (ageUnit s).length ≤ s) ∧
    ∀ v : AgeUnit, v.length ≤ s → v.length ≤ (ageUnit s).length := by
  unfold ageUnit
  constructor
  · split_ifs <;> simp [AgeUnit.length] <;> omega
  · intro v reached
    split_ifs <;> cases v <;> simp [AgeUnit.length] at * <;> omega

theorem readPast (n : Nat) (u : AgeUnit) :
    readAge? (digits n ++ ' ' :: u.name.toList ++ " ago".toList) = some ⟨n, u⟩ := by
  have number : ' ' ∉ digits n := digitsFree rfl (digitsAll n)
  have ago : " ago".toList = ' ' :: "ago".toList := rfl
  rw [ago, List.append_assoc, List.cons_append]
  simp only [readAge?, splitFirst?_append _ number, splitFirst?_append _ (nameWhole u), natural?_digits,
    ageUnitNamed, Option.bind_eq_bind, Option.bind_some, if_true]

end Units

section Seconds
variable {age : Int}

def wholeSeconds (age : Int) : Nat := (age.tdiv 1000000000).toNat

theorem secondsWithin (past : 0 ≤ age) :
    (wholeSeconds age : Int) * 1000000000 ≤ age ∧ age < (wholeSeconds age + 1) * 1000000000 := by
  rw [wholeSeconds, Int.tdiv_eq_ediv_of_nonneg past, Int.toNat_of_nonneg (by omega)]
  omega

theorem nanosReached (past : 0 ≤ age) (u : AgeUnit) : u.nanos ≤ age ↔ u.length ≤ wholeSeconds age := by
  have within := secondsWithin past
  rw [AgeUnit.nanos]
  omega

theorem largestShown (past : 0 ≤ age) : (ageUnit (wholeSeconds age)).LargestIn age := by
  obtain ⟨reached, largest⟩ := ageUnitLargest (wholeSeconds age)
  refine ⟨reached.imp_right (nanosReached past _).mpr, fun v within => ?_⟩
  have less := largest v ((nanosReached past v).mp within)
  rw [AgeUnit.nanos, AgeUnit.nanos]
  omega

theorem countWithin (past : 0 ≤ age) (u : AgeUnit) :
    ((wholeSeconds age / u.length : Nat) : Int) * u.nanos ≤ age ∧
      age < ((wholeSeconds age / u.length : Nat) + 1 : Int) * u.nanos := by
  obtain ⟨least, before⟩ := secondsWithin past
  have below := Nat.div_mul_le_self (wholeSeconds age) u.length
  have above := Nat.lt_div_mul_add (a := wholeSeconds age) (lengthPositive u)
  generalize wholeSeconds age / u.length = n at below above ⊢
  have above : wholeSeconds age + 1 ≤ (n + 1) * u.length := by rwa [Nat.succ_mul]
  rw [AgeUnit.nanos]
  zify at below above
  constructor <;> linarith

theorem textAhead (ahead : age ≤ -1000000000) : ageText age = "in the future".toList := by
  have negative := (truncatedNegative (by decide)).mpr ahead
  simp only [ageText, if_pos negative]

theorem readAgeText (past : -1000000000 < age) : readAge? (ageText age) =
    some ⟨wholeSeconds age / (ageUnit (wholeSeconds age)).length, ageUnit (wholeSeconds age)⟩ := by
  have negative : ¬age.tdiv 1000000000 < 0 := by
    rw [truncatedNegative (by decide)]
    omega
  simp only [ageText, if_neg negative]
  exact readPast _ _

theorem noSeconds (ahead : age < 0) : wholeSeconds age = 0 := by
  have none := Int.tdiv_le_tdiv (c := 1000000000) (by decide) ahead.le
  rw [Int.zero_tdiv] at none
  exact Int.toNat_of_nonpos none

end Seconds

/-- An age is told as the future from a whole second ahead on. Any other age is told in the largest unit that
it has reached, rounded down, and one that is less than a second ahead as no seconds. -/
theorem agesRoundedDown (age : Int) :
    (ageText age = "in the future".toList ↔ age ≤ -1000000000) ∧
    (-1000000000 < age → ∃ n u, readAge? (ageText age) = some ⟨n, u⟩ ∧
      (age < 0 → n = 0 ∧ u = .seconds) ∧
      (0 ≤ age → n * u.nanos ≤ age ∧ age < (n + 1) * u.nanos ∧ u.LargestIn age)) := by
  refine ⟨⟨fun ahead => ?_, textAhead⟩, fun past => ⟨_, _, readAgeText past, fun ahead => ?_, fun past => ?_⟩⟩
  · by_contra past
    have read := readAgeText (Int.not_le.mp past)
    have unread : readAge? "in the future".toList = none := by decide +kernel
    rw [ahead, unread] at read
    cases read
  · rw [noSeconds ahead]
    exact ⟨rfl, rfl⟩
  · obtain ⟨least, before⟩ := countWithin past (ageUnit (wholeSeconds age))
    exact ⟨least, before, largestShown past⟩

theorem agesRoundedDownEdge :
    let age : Int := 604799999999999
    0 ≤ age ∧ -1000000000 < age ∧ readAge? (ageText age) = some ⟨6, .days⟩ ∧
      6 * AgeUnit.days.nanos ≤ age ∧ age < (6 + 1) * AgeUnit.days.nanos ∧ AgeUnit.days.LargestIn age := by
  intro age
  have shown : readAge? (ageText age) = some ⟨6, .days⟩ := by decide +kernel
  obtain ⟨n, u, read, _, counted⟩ := (agesRoundedDown age).2 (by decide)
  cases read.symm.trans shown
  exact ⟨by decide, by decide, shown, counted (by decide)⟩

theorem futureMissed : ¬ ∀ age, ageText age = "in the future".toList ↔ age < 0 := by
  intro told
  have shown := (told (-500000000)).mpr (by decide)
  exact absurd shown (by decide +kernel)

end Measure
end BackupRotation
