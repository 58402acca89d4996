import BackupRotation.Instant.Civil
import Mathlib.Tactic
/-! Days counted through the calendar: every day has a date, which counts back to the day, and every date
of the calendar is that of its day. The mean length of a year misses the year of a day by one at most. -/
namespace BackupRotation
namespace Date

theorem yearLength (year : Int) :
    daysBeforeYear (year + 1) = daysBeforeYear year + if isLeap year then 366 else 365 := by
  simp only [daysBeforeYear, isLeap, Bool.and_eq_true, Bool.or_eq_true, beq_iff_eq, bne_iff_ne]
  split <;> omega

theorem yearOfCovers (n : Int) :
    daysBeforeYear (yearOf n) ≤ n ∧ n < daysBeforeYear (yearOf n + 1) := by
  have first : daysBeforeYear (400 * n / 146097 - 1) ≤ n := by unfold daysBeforeYear; omega
  have last : n < daysBeforeYear (400 * n / 146097 + 2) := by unfold daysBeforeYear; omega
  unfold yearOf
  simp only
  split
  · rename_i early
    exact ⟨first, by simpa using early⟩
  · rename_i late
    split
    · rename_i next
      exact ⟨next, by simpa [add_assoc] using last⟩
    · rename_i before
      exact ⟨Int.not_lt.mp late, Int.not_le.mp before⟩

theorem yearsRise {y z : Int} (below : y ≤ z) : daysBeforeYear y ≤ daysBeforeYear z := by
  induction z, below using Int.leInduction with
  | base => exact Int.le_refl _
  | succ z _ ih =>
    rw [yearLength]
    split <;> omega

theorem yearOfUnique {n year : Int} (start : daysBeforeYear year ≤ n)
    (stop : n < daysBeforeYear (year + 1)) : yearOf n = year := by
  obtain ⟨first, last⟩ := yearOfCovers n
  rcases Int.lt_trichotomy (yearOf n) year with early | same | late
  · have years := yearsRise (y := yearOf n + 1) (z := year) early
    omega
  · exact same
  · have years := yearsRise (y := year + 1) (z := yearOf n) late
    omega

theorem monthLengthsSum (leap : Bool) :
    (monthLengths leap).foldr (· + ·) 0 = if leap then 366 else 365 := by
  cases leap <;> rfl

theorem monthOfCovers {lengths : List Nat} {n : Nat} (first : Nat) (within : n < lengths.foldr (· + ·) 0) :
    first ≤ (monthOf lengths first n).1 ∧ 1 ≤ (monthOf lengths first n).2 ∧
      (monthOf lengths first n).2 ≤ lengths.getD ((monthOf lengths first n).1 - first) 0 ∧
      (lengths.take ((monthOf lengths first n).1 - first)).foldr (· + ·) 0 +
        ((monthOf lengths first n).2 - 1) = n := by
  induction lengths generalizing first n with
  | nil => simp at within
  | cons l ls ih =>
    simp only [List.foldr_cons] at within
    simp only [monthOf]
    split
    · simp; omega
    · have rest : n - l < ls.foldr (· + ·) 0 := by omega
      obtain ⟨above, positive, inside, sum⟩ := ih (first + 1) rest
      have steps : (monthOf ls (first + 1) (n - l)).1 - first =
          (monthOf ls (first + 1) (n - l)).1 - (first + 1) + 1 := by omega
      simp only [steps, List.getD_cons_succ, List.take_succ_cons, List.foldr_cons]
      omega

theorem dayOfYear (days : Int) :
    let n := days + epoch
    (n - daysBeforeYear (yearOf n)).toNat < (monthLengths (isLeap (yearOf n))).foldr (· + ·) 0 := by
  intro n
  obtain ⟨start, stop⟩ := yearOfCovers n
  rw [yearLength] at stop
  rw [monthLengthsSum]
  split at stop <;> simp [*] <;> omega

theorem ofDaysValid (days : Int) : (ofDays days).Valid := by
  obtain ⟨month, day, inside, _⟩ := monthOfCovers 1 (dayOfYear days)
  exact ⟨month, day, inside⟩

theorem toDaysOfDays (days : Int) : (ofDays days).toDays = days := by
  obtain ⟨start, _⟩ := yearOfCovers (days + epoch)
  obtain ⟨month, day, _, sum⟩ := monthOfCovers 1 (dayOfYear days)
  simp only [toDays, ofDays, daysBeforeMonth]
  omega

theorem monthOfTake {lengths : List Nat} {j k : Nat} (first : Nat) (below : k < lengths.getD j 0) :
    monthOf lengths first ((lengths.take j).foldr (· + ·) 0 + k) = (first + j, k + 1) := by
  induction lengths generalizing first j with
  | nil => simp at below
  | cons l ls ih =>
    cases j with
    | zero =>
      have inside : k < l := below
      simp [monthOf, inside]
    | succ j =>
      have beyond : ¬ l + (ls.take j).foldr (· + ·) 0 + k < l := by omega
      have behind : l + (ls.take j).foldr (· + ·) 0 + k - l = (ls.take j).foldr (· + ·) 0 + k := by omega
      simp only [List.take_succ_cons, List.foldr_cons, monthOf, if_neg beyond, behind]
      rw [ih (first + 1) below]
      simp only [Prod.mk.injEq, and_true]
      omega

theorem takeBelow {lengths : List Nat} {j k : Nat} (below : k < lengths.getD j 0) :
    (lengths.take j).foldr (· + ·) 0 + k < lengths.foldr (· + ·) 0 := by
  induction lengths generalizing j with
  | nil => simp at below
  | cons l ls ih =>
    cases j with
    | zero =>
      have first : k < l := below
      simp only [List.take_zero, List.foldr_nil, List.foldr_cons]
      omega
    | succ j =>
      have rest := ih (j := j) below
      simp only [List.take_succ_cons, List.foldr_cons]
      omega

theorem dayBelow {d : Date} (valid : d.Valid) :
    daysBeforeMonth (isLeap d.year) d.month + (d.day - 1) < if isLeap d.year then 366 else 365 := by
  obtain ⟨month, day, inside⟩ := valid
  rw [← monthLengthsSum]
  exact takeBelow (by omega)

theorem ofDaysToDays {d : Date} (valid : d.Valid) : ofDays d.toDays = d := by
  have within := dayBelow valid
  obtain ⟨month, day, inside⟩ := valid
  have room : ((daysBeforeMonth (isLeap d.year) d.month + (d.day - 1) : Nat) : Int) <
      if isLeap d.year then 366 else 365 := by exact_mod_cast within
  have place : d.toDays + epoch =
      daysBeforeYear d.year + (daysBeforeMonth (isLeap d.year) d.month + (d.day - 1) : Nat) := by
    unfold toDays
    omega
  have year : yearOf (d.toDays + epoch) = d.year := by
    refine yearOfUnique (by omega) ?_
    rw [yearLength, place]
    exact Int.add_lt_add_left room _
  have back : (d.toDays + epoch - daysBeforeYear d.year).toNat =
      daysBeforeMonth (isLeap d.year) d.month + (d.day - 1) := by omega
  have below : d.day - 1 < (monthLengths (isLeap d.year)).getD (d.month - 1) 0 := by omega
  simp only [ofDays, year, back]
  rw [daysBeforeMonth, monthOfTake 1 below]
  cases d
  simp only [Date.mk.injEq, true_and]
  simp only at month day
  omega

/-- The days of years with four digits at most, before or after year 0. -/
theorem toDaysWithin {d : Date} (valid : d.Valid) (first : -9999 ≤ d.year) (last : d.year ≤ 9999) :
    -5000000 ≤ d.toDays ∧ d.toDays ≤ 5000000 := by
  have before := dayBelow valid
  unfold toDays daysBeforeYear epoch
  split at before <;> omega

theorem ofDaysYear (days : Int) : (ofDays days).year = yearOf (days + epoch) := rfl

theorem validMonth {d : Date} (valid : d.Valid) : d.month ≤ 12 ∧ d.day ≤ 31 := by
  obtain ⟨month, day, inside⟩ := valid
  have longest : ∀ l ∈ monthLengths (isLeap d.year), l ≤ 31 := by
    cases isLeap d.year <;> decide
  rw [List.getD_eq_getElem?_getD] at inside
  cases found : (monthLengths (isLeap d.year))[d.month - 1]? with
  | none =>
    rw [found] at inside
    exact absurd (day.trans inside) (by simp)
  | some l =>
    rw [found] at inside
    obtain ⟨below, _⟩ := List.getElem?_eq_some_iff.mp found
    have count : (monthLengths (isLeap d.year)).length = 12 := rfl
    exact ⟨by omega, inside.trans (longest l (List.mem_of_getElem? found))⟩

end Date

namespace Instant
open Date

/-- Between the first and the last second of all points in time lie whole years. -/
theorem yearWithin {seconds : Int} (first : firstSecond ≤ seconds) (last : seconds ≤ lastSecond) :
    Civil.firstYear ≤ (ofDays (seconds / 86400)).year ∧ (ofDays (seconds / 86400)).year ≤ Civil.lastYear := by
  obtain ⟨start, stop⟩ := yearOfCovers (seconds / 86400 + epoch)
  rw [ofDaysYear]
  unfold firstSecond at first
  unfold lastSecond at last
  unfold Civil.firstYear Civil.lastYear
  constructor
  · by_contra early
    have years := yearsRise (y := yearOf (seconds / 86400 + epoch) + 1) (z := -262143) (by omega)
    have least : daysBeforeYear (-262143) = -95745764 := by decide
    unfold epoch at *
    omega
  · by_contra late
    have years := yearsRise (y := 262143) (z := yearOf (seconds / 86400 + epoch)) (by omega)
    have greatest : daysBeforeYear 262143 = 95745765 := by decide
    unfold epoch at *
    omega

end Instant
end BackupRotation
