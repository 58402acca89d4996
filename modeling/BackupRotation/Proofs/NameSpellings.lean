import BackupRotation.Proofs.NameParts
/-! The file names that are accepted. Each one stands for a name of the scheme, but its date and its time
need only be as long as a stamp: blanks may stand in them for leading zeros, and a sign before the year. A
year before year 0 takes one byte more when it is written, so such a name cannot be read back. -/
namespace BackupRotation

namespace Instant
open Text
variable {front rest : List Char} {limit n : Nat} {d : Date} {date time : List Char}

theorem numberBelow (number : Number limit front n rest) : n < 10 ^ limit := by
  obtain ⟨_, _, all, short, _⟩ := number
  exact (valueBelow all).trans_le (Nat.pow_le_pow_right (by decide) short)

theorem numberFilled (number : Number limit front n rest) : 0 < front.length := by
  obtain ⟨_, some, _, _, _⟩ := number
  rw [List.length_append]
  exact Nat.lt_of_lt_of_le (List.length_pos_iff.mpr some) (Nat.le_add_left _ _)

theorem numberBehind (number : Number limit front n rest) (ended : Ended (front ++ rest)) :
    1 < front.length := by
  obtain ⟨blank, some, all, short, ended'⟩ := number
  rename_i blanks ds
  obtain ⟨c, more, rfl⟩ := List.exists_cons_of_ne_nil some
  -- digits behind digits that have ended have a blank before them
  cases blanks with
  | nil => cases (ended c rfl).symm.trans (all c List.mem_cons_self)
  | cons b blanks => simp

theorem yearShort (spelled : SpellsDate date d) (long : date.length ≤ 8) :
    -9999 ≤ d.year ∧ d.year ≤ 9999 := by
  obtain ⟨y, m, e, rfl, year, month, day⟩ := spelled
  generalize d.year = value at year
  simp only [List.length_append] at long
  obtain (number | ⟨blank, signed, some, all, ended⟩) := year
  · have below := numberBelow number
    omega
  · rename_i blanks c sign ds
    -- the sign, the blank before the month, and a digit each for month and day
    have behind := numberBehind month ended
    have last := numberFilled day
    simp only [List.length_append, List.length_cons] at long
    have below := (valueBelow all).trans_le (Nat.pow_le_pow_right (by decide) (show ds.length ≤ 4 by omega))
    cases signed <;> omega

end Instant

namespace BackupName
open Instant (DateDigits SpellsDate SpellsTime TimeDigits civilGiven civilRead dateDigitsIff stampIff timeDigitsIff
  yearShort)
open Text
variable {fileName : String} {n : BackupName} {date time : List Char}

/-- A valid point in time in eight digits and six digits. -/
def Stamped (date time : List Char) : Prop := ∃ d hour minute second, DateDigits date d ∧
  TimeDigits time hour minute second ∧ d.Valid ∧ hour ≤ 23 ∧ minute ≤ 59 ∧ second ≤ 60

/-- A valid point in time in eight bytes and six bytes. -/
def Spelled (date time : List Char) : Prop := (width date = 8 ∧ width time = 6) ∧
  ∃ d hour minute second, SpellsDate date d ∧ SpellsTime time hour minute second ∧ d.Valid ∧ hour ≤ 23 ∧
    minute ≤ 59 ∧ second ≤ 60

def DigitsAlone (date time : List Char) : Prop := ∀ c ∈ date ++ time, isDigit c = true

/-- A file name `backup_<engine>_<database>_<date>_<time>`, with or without an extension. -/
def InScheme (stamp : List Char → List Char → Prop) (fileName : String) : Prop :=
  ∃ p : Parts, p.name = fileName.toList ∧ stamp p.date p.time

theorem schemeAnd {a b : List Char → List Char → Prop} :
    InScheme (fun date time => a date time ∧ b date time) fileName ↔
      InScheme a fileName ∧ InScheme b fileName := by
  constructor
  · rintro ⟨p, same, left, right⟩
    exact ⟨⟨p, same, left⟩, p, same, right⟩
  · rintro ⟨⟨p, same, left⟩, q, same', right⟩
    obtain rfl := Parts.nameInjective (same'.trans same.symm)
    exact ⟨q, same, left, right⟩

theorem stampedIff : Stamped date time ↔ Spelled date time ∧ DigitsAlone date time := by
  constructor
  · rintro ⟨d, hour, minute, second, dated, timed, valid⟩
    obtain ⟨spelledDate, longDate, allDate⟩ := dateDigitsIff.mp dated
    obtain ⟨spelledTime, longTime, allTime⟩ := timeDigitsIff.mp timed
    have wide : width date = 8 ∧ width time = 6 := by
      rw [widthDigits allDate, widthDigits allTime]
      exact ⟨longDate, longTime⟩
    exact ⟨⟨wide, d, hour, minute, second, spelledDate, spelledTime, valid⟩,
      List.forall_mem_append.mpr ⟨allDate, allTime⟩⟩
  · rintro ⟨⟨⟨wideDate, wideTime⟩, d, hour, minute, second, spelledDate, spelledTime, valid⟩, digits⟩
    obtain ⟨allDate, allTime⟩ := List.forall_mem_append.mp digits
    rw [widthDigits allDate] at wideDate
    rw [widthDigits allTime] at wideTime
    exact ⟨d, hour, minute, second, dateDigitsIff.mpr ⟨spelledDate, wideDate, allDate⟩,
      timeDigitsIff.mpr ⟨spelledTime, wideTime, allTime⟩, valid⟩

theorem spelledRead (dated : '_' ∉ date) (timed : '_' ∉ time) : Spelled date time ↔
    (width date = 8 ∧ width time = 6) ∧ ∃ t, Instant.ofStamp? (date ++ '_' :: time) = some t := by
  refine and_congr_right fun ⟨wide, _⟩ => ?_
  simp only [stampIff dated timed]
  constructor
  · rintro ⟨d, hour, minute, second, spelledDate, spelledTime, valid, hours, minutes, seconds⟩
    obtain ⟨first, last⟩ := yearShort spelledDate (wide ▸ lengthWithin date)
    obtain ⟨t, given⟩ := civilGiven (c := ⟨d, hour, minute, second, 0⟩) valid first last (Nat.lt_succ_of_le hours)
      (Nat.lt_succ_of_le minutes) seconds (by simp)
    exact ⟨t, d, hour, minute, second, spelledDate, spelledTime, given⟩
  · rintro ⟨t, d, hour, minute, second, spelledDate, spelledTime, given⟩
    obtain ⟨valid, _⟩ := Option.ite_none_right_eq_some.mp given
    obtain ⟨valid, _, _, hours, minutes, seconds, _⟩ := valid
    exact ⟨d, hour, minute, second, spelledDate, spelledTime, valid, Nat.le_of_lt_succ hours,
      Nat.le_of_lt_succ minutes, seconds⟩

theorem acceptedIff : (∃ n, ofFileName? fileName = some n) ↔ InScheme Spelled fileName := by
  constructor
  · rintro ⟨n, read⟩
    obtain ⟨p, same⟩ := readParts read
    rw [ofFileName?, ← same] at read
    obtain ⟨wide, stamp, _⟩ := p.readNameIff.mp read
    exact ⟨p, same, (spelledRead p.dated.1 p.timed.1).mpr ⟨wide, n.created, stamp⟩⟩
  · rintro ⟨p, same, spelled⟩
    obtain ⟨wide, t, stamp⟩ := (spelledRead p.dated.1 p.timed.1).mp spelled
    rw [ofFileName?, ← same]
    exact ⟨⟨String.ofList p.engine, String.ofList p.database, t, String.ofList p.extension⟩,
      p.readNameIff.mpr ⟨wide, stamp, by simp⟩⟩

/-- The accepted names are those of the scheme whose dates and times are as long as a stamp. They are
digits alone in precisely those of the names that the scheme describes. -/
theorem acceptedSpellings (fileName : String) :
    ((∃ n, ofFileName? fileName = some n) ↔ InScheme Spelled fileName) ∧
      (InScheme Stamped fileName ↔
        (∃ n, ofFileName? fileName = some n) ∧ InScheme DigitsAlone fileName) := by
  refine ⟨acceptedIff, ?_⟩
  rw [acceptedIff, ← schemeAnd]
  simp only [InScheme, stampedIff]

theorem blanksAccepted : ¬ ∀ fileName, (∃ n, ofFileName? fileName = some n) ↔ InScheme Stamped fileName := by
  intro scheme
  obtain ⟨n, read⟩ : ∃ n, ofFileName? "backup_mysql_shop_2024 1 2_000000.sql" = some n :=
    Option.isSome_iff_exists.mp (by decide +kernel)
  obtain ⟨p, same, _, _, _, _, dated, _⟩ := (scheme _).mp ⟨n, read⟩
  let q : Parts := {
    engine := "mysql".toList
    database := "shop".toList
    date := "2024 1 2".toList
    time := "000000".toList
    ending := ".sql".toList
    extension := "sql".toList
    owner := by decide
    owned := by decide
    dated := by decide
    timed := by decide
    ended := .inl rfl }
  obtain rfl := Parts.nameInjective (q := q) same
  exact absurd ((dateDigitsIff.mp dated).2.2 ' ' (by decide)) (by decide)

theorem acceptedYear (accepted : ofFileName? fileName = some n) : n.created.civil.date.year ≤ 9999 := by
  obtain ⟨p, same⟩ := readParts accepted
  rw [ofFileName?, ← same] at accepted
  obtain ⟨⟨wide, _⟩, stamp, _⟩ := p.readNameIff.mp accepted
  obtain ⟨d, hour, minute, second, spelled, _, given⟩ := (stampIff p.dated.1 p.timed.1).mp stamp
  rw [civilRead given]
  exact (yearShort spelled (wide ▸ lengthWithin p.date)).2

/-- What an accepted name stands for is read from its canonical name too, but for years before year 0,
which are written with a sign. -/
theorem canonicalRead (accepted : ofFileName? fileName = some n) :
    ofFileName? n.fileName = if 0 ≤ n.created.civil.date.year then some n else none := by
  obtain ⟨owned, whole⟩ := ownedRead accepted
  split
  · rename_i first
    exact readRepresentable ⟨owned, whole, first, acceptedYear accepted⟩
  · rename_i before
    exact Option.eq_none_iff_forall_ne_some.mpr fun m read => before (yearWritten owned read).1

theorem canonicalReadShort : ∃ n, ofFileName? "backup_mysql_shop_+2 01 01_ 3 1 5." = some n ∧
    n.fileName = "backup_mysql_shop_00020101_030105" ∧
      ofFileName? n.fileName = if 0 ≤ n.created.civil.date.year then some n else none := by
  obtain ⟨n, read, written⟩ : ∃ n, ofFileName? "backup_mysql_shop_+2 01 01_ 3 1 5." = some n ∧
      n.fileName = "backup_mysql_shop_00020101_030105" := Option.map_eq_some_iff.mp (by decide +kernel)
  exact ⟨n, read, written, canonicalRead read⟩

theorem canonicalUnread : ¬ ∀ fileName n, ofFileName? fileName = some n → ofFileName? n.fileName = some n := by
  intro readable
  obtain ⟨n, read, refused⟩ : ∃ n, ofFileName? "backup_mysql_shop_-1 12 31_000000.sql" = some n ∧
      ofFileName? n.fileName = none := Option.map_eq_some_iff.mp (by decide +kernel)
  cases refused.symm.trans (readable _ n read)

end BackupName
end BackupRotation
