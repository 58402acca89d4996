/-! The proleptic Gregorian calendar: dates against days counted from 1970-01-01.
Years run through 0 to negative numbers. -/
namespace BackupRotation

structure Date where
  year : Int
  month : Nat
  day : Nat
  deriving DecidableEq, Repr

namespace Date

def isLeap (year : Int) : Bool := year % 4 == 0 && (year % 100 != 0 || year % 400 == 0)

def monthLengths (leap : Bool) : List Nat :=
  [31, if leap then 29 else 28, 31, 30, 31, 30, 31, 31, 30, 31, 30, 31]

def Valid (d : Date) : Prop :=
  1 ≤ d.month ∧ 1 ≤ d.day ∧ d.day ≤ (monthLengths (isLeap d.year)).getD (d.month - 1) 0
instance (d : Date) : Decidable d.Valid := by unfold Valid; infer_instance

def daysBeforeYear (year : Int) : Int :=
  365 * year + (year + 3) / 4 - (year + 99) / 100 + (year + 399) / 400

def daysBeforeMonth (leap : Bool) (month : Nat) : Nat :=
  ((monthLengths leap).take (month - 1)).foldr (· + ·) 0

def epoch : Int := 719528

def toDays (d : Date) : Int :=
  daysBeforeYear d.year + daysBeforeMonth (isLeap d.year) d.month + (d.day - 1 : Int) - epoch

/-- The year that holds day `n`, counted from the first day of year 0. The mean length of a year
finds it up to one. -/
def yearOf (n : Int) : Int :=
  let guess := 400 * n / 146097
  if n < daysBeforeYear guess then guess - 1
  else if daysBeforeYear (guess + 1) ≤ n then guess + 1
  else guess

def monthOf : (lengths : List Nat) → (month dayOfYear : Nat) → Nat × Nat
  | [], month, n => (month, n + 1)
  | l :: ls, month, n => if n < l then (month, n + 1) else monthOf ls (month + 1) (n - l)

def ofDays (days : Int) : Date :=
  let n := days + epoch
  let year := yearOf n
  let (month, day) := monthOf (monthLengths (isLeap year)) 1 (n - daysBeforeYear year).toNat
  ⟨year, month, day⟩

example : ofDays 11016 = ⟨2000, 2, 29⟩ ∧ toDays ⟨2000, 2, 29⟩ = 11016 := by decide

end Date
end BackupRotation
