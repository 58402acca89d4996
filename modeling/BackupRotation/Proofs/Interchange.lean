import BackupRotation.Instant.Read
import BackupRotation.Instant.Written
import BackupRotation.Proofs.Days
import BackupRotation.Proofs.Numerals
/-! Points in time in their interchange form. Whatever its year, its fraction of a second and its leap
second, a point in time is read from what is written for it. -/
namespace BackupRotation
namespace Instant
open Text (Ended digitOther digitVisible isDigit padded paddedAll paddedFilled paddedLength skipBlanks
  takeDigits takeDigitsEnded takePadded valueOf valueOf_padded)

section Civil
variable (t : Instant)

theorem civilSecond : t.civil.second = 60 ↔ t.IsLeap := by
  obtain ⟨_, _, _, last⟩ := t.admissible
  have mod : t.secondOfDay.toNat % 60 = (t.seconds % 60).toNat := by unfold secondOfDay; omega
  simp only [civil, IsLeap]
  split <;> omega

theorem civilValid : t.civil.Valid := by
  obtain ⟨first, last, short, _⟩ := t.admissible
  have day : t.secondOfDay.toNat < 86400 := by unfold secondOfDay; omega
  obtain ⟨early, late⟩ := yearWithin first last
  refine ⟨Date.ofDaysValid _, early, late, ?_, ?_, ?_, ?_⟩
  · simp only [civil]; omega
  · simp only [civil]; omega
  · simp only [civil]; split <;> omega
  · simp only [civil]; split <;> omega

theorem civilInstant : t.civil.instant? 0 = some t := by
  have valid := civilValid t
  have leap := civilSecond t
  obtain ⟨_, _, _, last⟩ := t.admissible
  have days : t.civil.date.toDays = t.seconds / 86400 := Date.toDaysOfDays _
  have clock : (t.civil.hour * 3600 + t.civil.minute * 60 +
      if t.civil.second = 60 then 59 else t.civil.second) = t.secondOfDay.toNat := by
    simp only [leap]
    simp only [civil, IsLeap]
    have mod : t.secondOfDay.toNat % 60 = (t.seconds % 60).toNat := by unfold secondOfDay; omega
    split <;> omega
  have nanos : (if t.civil.second = 60 then t.civil.nanos + 1000000000 else t.civil.nanos) = t.nanos := by
    simp only [leap]
    simp only [civil, IsLeap]
    split <;> omega
  have seconds : t.civil.date.toDays * 86400 + (t.secondOfDay.toNat : Int) - 0 = t.seconds := by
    rw [days]
    unfold secondOfDay
    omega
  rw [Civil.instant?, if_pos valid]
  simp only [clock, nanos, seconds, ofUnix?, t.admissible, dif_pos]

end Civil

section Read
variable {c : Civil} {t : Instant}

theorem civilRead (given : Civil.instant? c 0 = some t) : t.civil = c := by
  unfold Civil.instant? at given
  obtain ⟨valid, given⟩ := Option.ite_none_right_eq_some.mp given
  obtain ⟨admissible, same⟩ := Option.dite_none_right_eq_some.mp given
  obtain rfl := Option.some.inj same
  obtain ⟨date, _, _, hour, minute, second, nanos⟩ := valid
  have back := Date.ofDaysToDays date
  rcases c with ⟨d, h, m, s, n⟩
  simp only at back hour minute second nanos
  -- the last second of a minute stands for the leap second behind it
  obtain ⟨dial, shown⟩ : ∃ dial, (if s = 60 then 59 else s) = dial := ⟨_, rfl⟩
  have below : dial < 60 := by split at shown <;> omega
  have days : (d.toDays * 86400 + ((h * 3600 + m * 60 + dial : Nat) : Int) - 0) / 86400 = d.toDays := by
    omega
  have clock : ((d.toDays * 86400 + ((h * 3600 + m * 60 + dial : Nat) : Int) - 0) % 86400).toNat =
      h * 3600 + m * 60 + dial := by omega
  have parts : (h * 3600 + m * 60 + dial) / 3600 = h ∧ (h * 3600 + m * 60 + dial) / 60 % 60 = m ∧
      (h * 3600 + m * 60 + dial) % 60 = dial := by omega
  simp only [civil, secondOfDay, shown, days, clock, back, parts]
  split at shown
  · rename_i leap
    simp [leap, ← shown]
  · rename_i leap
    obtain rfl := shown
    simp [leap, nanos]

theorem civilGiven (date : c.date.Valid) (first : -9999 ≤ c.date.year) (last : c.date.year ≤ 9999)
    (hour : c.hour < 24) (minute : c.minute < 60) (second : c.second ≤ 60) (nanos : c.nanos < 1000000000) :
    ∃ t, Civil.instant? c 0 = some t := by
  have valid : c.Valid := ⟨date, by unfold Civil.firstYear; omega, by unfold Civil.lastYear; omega, hour, minute, second, nanos⟩
  obtain ⟨early, late⟩ := Date.toDaysWithin date first last
  have admissible : Admissible (c.date.toDays * 86400 + ((c.hour * 3600 + c.minute * 60 +
      if c.second = 60 then 59 else c.second : Nat) : Int) - 0)
      (if c.second = 60 then c.nanos + 1000000000 else c.nanos) := by
    unfold Admissible firstSecond lastSecond
    split <;> omega
  rw [Civil.instant?, if_pos valid]
  exact ⟨_, dif_pos admissible⟩

end Read

section Parts
variable {limit n : Nat} {rest : List Char}

theorem skipPadded (width n : Nat) : skipBlanks (padded width n ++ rest) = padded width n ++ rest := by
  obtain ⟨c, cs, written, digit⟩ := paddedFilled width n
  rw [written, List.cons_append, Text.skipBlanksOfNot _ (digitVisible digit)]

theorem numberRead (wide : 0 < limit) (below : n < Nat.pow 10 limit) :
    number? limit (padded limit n ++ rest) = some (n, rest) := by
  obtain ⟨c, cs, written, _⟩ := paddedFilled limit n
  have filled : padded limit n ≠ [] := by simp [written]
  simp only [number?, skipPadded, takePadded wide below, if_neg filled, valueOf_padded]

theorem yearRead (year : Int) (ended : Ended rest) :
    year? (yearText year ++ rest) = some (year, rest) := by
  have signed (n : Nat) : takeDigits (padded 4 n ++ rest).length (padded 4 n ++ rest) =
      (padded 4 n, rest) := takeDigitsEnded (paddedAll 4 n) (by simp) ended
  have filled (n : Nat) : padded 4 n ≠ [] := by
    obtain ⟨c, cs, written, _⟩ := paddedFilled 4 n
    simp [written]
  unfold yearText
  split
  · obtain ⟨c, cs, written, digit⟩ := paddedFilled 4 year.toNat
    have minus : c ≠ '-' := digitOther digit rfl
    have plus : c ≠ '+' := digitOther digit rfl
    have read : number? 4 (padded 4 year.toNat ++ rest) = some (year.toNat, rest) :=
      numberRead (by decide) (by simp; omega)
    unfold year?
    rw [skipPadded]
    rw [written, List.cons_append] at read ⊢
    split
    · simp_all
    · simp_all
    · rw [read]
      simp
      omega
  · split
    · simp only [year?, List.cons_append, Text.skipBlanksOfNot _ (show Text.isBlank '-' = false from rfl),
        signed, if_neg (filled _), valueOf_padded, Option.some.injEq, Prod.mk.injEq, and_true]
      omega
    · simp only [year?, List.cons_append, Text.skipBlanksOfNot _ (show Text.isBlank '+' = false from rfl),
        signed, if_neg (filled _), valueOf_padded, Option.some.injEq, Prod.mk.injEq, and_true]
      omega

theorem fractionDigits (width value : Nat) (wide : 0 < width) (narrow : width ≤ 9)
    (below : value < Nat.pow 10 width) :
    fraction? ('.' :: padded width value ++ ['Z']) = some (value * Nat.pow 10 (9 - width), ['Z']) := by
  obtain ⟨c, cs, written, _⟩ := paddedFilled width value
  have filled : padded width value ≠ [] := by simp [written]
  have length := paddedLength wide below
  have ended : Ended ['Z'] := by simp [Ended]; rfl
  simp only [fraction?, List.cons_append, takeDigitsEnded (paddedAll width value) (length ▸ narrow) ended,
    if_neg filled, valueOf_padded, length]
  rfl

theorem fractionRead {nanos : Nat} (below : nanos < 1000000000) :
    fraction? (fractionText nanos ++ ['Z']) = some (nanos, ['Z']) := by
  unfold fractionText
  split
  · subst nanos
    rfl
  · split
    · rw [fractionDigits 3 (nanos / 1000000) (by decide) (by decide) (by simp; omega)]
      simp
      omega
    · split
      · rw [fractionDigits 6 (nanos / 1000) (by decide) (by decide) (by simp; omega)]
        simp
        omega
      · rw [fractionDigits 9 nanos (by decide) (by decide) (by simpa using below)]
        simp

end Parts

theorem writtenRead (t : Instant) {sep : Char} (apart : sep = 'T' ∨ sep = 't' ∨ sep = ' ') :
    ofInterchange? (dateText t.civil.date ++ sep :: timeText t.civil ++ fractionText t.civil.nanos ++ ['Z']) =
      some t := by
  obtain ⟨date, _, _, hour, minute, second, nanos⟩ := civilValid t
  obtain ⟨month, day⟩ := Date.validMonth date
  have two {n : Nat} (below : n < 100) (rest : List Char) : number? 2 (padded 2 n ++ rest) = some (n, rest) :=
    numberRead (by decide) (by simpa using below)
  have dash (cs : List Char) : skipBlanks ('-' :: cs) = '-' :: cs := Text.skipBlanksOfNot cs rfl
  have colon (cs : List Char) : skipBlanks (':' :: cs) = ':' :: cs := Text.skipBlanksOfNot cs rfl
  have ended (cs : List Char) : Ended ('-' :: cs) := by simp [Ended]; rfl
  have zone : zone? (skipBlanks ['Z']) = some (0, []) := rfl
  have after (c : Char) (cs : List Char) : Text.afterStart? [c] (c :: cs) = some cs :=
    Text.afterStart?_append [c] cs
  have written : dateText t.civil.date ++ sep :: timeText t.civil ++ fractionText t.civil.nanos ++ ['Z'] =
      yearText t.civil.date.year ++ '-' :: (padded 2 t.civil.date.month ++
      '-' :: (padded 2 t.civil.date.day ++ sep :: (padded 2 t.civil.hour ++ ':' :: (padded 2 t.civil.minute ++
      ':' :: (padded 2 t.civil.second ++ (fractionText t.civil.nanos ++ ['Z'])))))) := by
    simp only [dateText, timeText, List.append_assoc, List.cons_append]
  rw [written, ofInterchange?, yearRead _ (ended _)]
  dsimp only [bind, Option.bind]
  rw [dash, after]
  dsimp only
  rw [two (by omega)]
  dsimp only
  rw [dash, after]
  dsimp only
  rw [two (by omega)]
  dsimp only
  rw [if_pos apart, two (by omega)]
  dsimp only
  rw [colon, after]
  dsimp only
  rw [two (by omega)]
  dsimp only
  rw [colon, after]
  dsimp only
  rw [two (by omega)]
  dsimp only
  rw [fractionRead nanos]
  dsimp only
  rw [zone]
  exact civilInstant t

theorem interchangeRead (t : Instant) : ofInterchange? t.interchange = some t := writtenRead t (.inl rfl)

/-- The point in time at the start of its second. -/
def wholeSecond (t : Instant) : Instant where
  seconds := t.seconds
  nanos := if t.IsLeap then 1000000000 else 0
  admissible := by
    obtain ⟨first, last, _, follows⟩ := t.admissible
    by_cases leap : t.IsLeap
    · rw [if_pos leap]
      exact ⟨first, last, by decide, fun _ => follows leap⟩
    · rw [if_neg leap]
      exact ⟨first, last, by decide, nofun⟩

theorem wholeSecondCivil (t : Instant) : t.wholeSecond.civil = { t.civil with nanos := 0 } := by
  by_cases leap : 1000000000 ≤ t.nanos
  · simp [civil, wholeSecond, secondOfDay, IsLeap, leap]
  · simp [civil, wholeSecond, secondOfDay, IsLeap, leap]

/-- A table shows a point in time to its second. -/
theorem tabularRead (t : Instant) : ofInterchange? (t.tabular ++ ['Z']) = some t.wholeSecond := by
  have read := @writtenRead t.wholeSecond ' ' (.inr (.inr rfl))
  rw [wholeSecondCivil] at read
  have written : t.tabular = dateText t.civil.date ++ ' ' :: timeText t.civil ++ fractionText 0 :=
    (List.append_nil _).symm
  rwa [written]

example : (⟨-8334601228741, 1999999999, by decide⟩ : Instant).interchange =
    "-262143-01-01T00:00:60.999999999Z".toList := by cbv

end Instant
end BackupRotation
