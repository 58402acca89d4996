import BackupRotation.Proofs.Interchange
import BackupRotation.Proofs.Trimming
/-! The texts that are read as stamps of points in time. Numbers in them may be shorter than in a written
stamp where blanks stand before them, and a year may have a sign; a text of digits alone that is as long
as a written stamp is read like one. -/
namespace BackupRotation

theorem Text.cutOnce {sep : Char} {a b a' b' : List Char} (same : a ++ sep :: b = a' ++ sep :: b')
    (left : sep ∉ a) (right : sep ∉ b) : a = a' ∧ b = b' := by
  have count := congrArg (List.count sep) same
  simp only [List.count_append, List.count_cons_self, List.count_eq_zero.mpr left,
    List.count_eq_zero.mpr right] at count
  have left' : sep ∉ a' := List.count_eq_zero.mp (by omega)
  have cut := splitFirst?_append b left
  rw [same, splitFirst?_append b' left'] at cut
  cases cut
  exact ⟨rfl, rfl⟩

namespace Instant
open Text

/-- Blanks and a number of at most `limit` digits. Only behind a number of as many can a digit follow. -/
inductive Number (limit : Nat) : (front : List Char) → (n : Nat) → (rest : List Char) → Prop where
  | mk {blanks ds rest} (blank : Blank blanks) (some : ds ≠ []) (all : ∀ c ∈ ds, isDigit c = true)
      (short : ds.length ≤ limit) (ended : ds.length = limit ∨ Ended rest) :
      Number limit (blanks ++ ds) (valueOf ds) rest

inductive Sign : Char → Int → Prop where
  | plus : Sign '+' 1
  | minus : Sign '-' (-1)

/-- A year in at most four digits, or in any number of digits behind a sign. -/
inductive Year : (front : List Char) → (year : Int) → (rest : List Char) → Prop where
  | plain {front n rest} (number : Number 4 front n rest) : Year front n rest
  | signed {blanks c sign ds rest} (blank : Blank blanks) (signed : Sign c sign) (some : ds ≠ [])
      (all : ∀ c ∈ ds, isDigit c = true) (ended : Ended rest) :
      Year (blanks ++ c :: ds) (sign * valueOf ds) rest

def SpellsDate (cs : List Char) (d : Date) : Prop := ∃ year month day, cs = year ++ month ++ day ∧
  Year year d.year (month ++ day) ∧ Number 2 month d.month day ∧ Number 2 day d.day []

def SpellsTime (cs : List Char) (hour minute second : Nat) : Prop := ∃ h m s, cs = h ++ m ++ s ∧
  Number 2 h hour (m ++ s) ∧ Number 2 m minute s ∧ Number 2 s second []

def Digits (width : Nat) (cs : List Char) : Prop := cs.length = width ∧ ∀ c ∈ cs, isDigit c = true

def DateDigits (cs : List Char) (d : Date) : Prop := ∃ year month day, cs = year ++ month ++ day ∧
  Digits 4 year ∧ Digits 2 month ∧ Digits 2 day ∧ d = ⟨valueOf year, valueOf month, valueOf day⟩

def TimeDigits (cs : List Char) (hour minute second : Nat) : Prop := ∃ h m s, cs = h ++ m ++ s ∧
  Digits 2 h ∧ Digits 2 m ∧ Digits 2 s ∧ hour = valueOf h ∧ minute = valueOf m ∧ second = valueOf s

section Numbers
variable {front rest cs ds more : List Char} {limit n : Nat} {year sign : Int} {c : Char}

theorem skipToDigits {blanks : List Char} (blank : Blank blanks) (some : ds ≠ [])
    (all : ∀ c ∈ ds, isDigit c = true) : skipBlanks (blanks ++ ds ++ rest) = ds ++ rest := by
  obtain ⟨c, more, rfl⟩ := List.exists_cons_of_ne_nil some
  rw [List.append_assoc, skipBlanksBehind blank, List.cons_append,
    skipBlanksOfNot _ (digitVisible (all c List.mem_cons_self))]

theorem numberIff : number? limit cs = some (n, rest) ↔
    ∃ front, cs = front ++ rest ∧ Number limit front n rest := by
  constructor
  · intro read
    obtain ⟨blanks, blank, whole⟩ := skipBlanksCut cs
    obtain ⟨ds, left, taken⟩ : ∃ ds left, takeDigits limit (skipBlanks cs) = (ds, left) := ⟨_, _, rfl⟩
    obtain ⟨cut, all, short, ended⟩ := takeDigitsIff.mp taken
    simp only [number?, taken, Option.ite_none_left_eq_some, Option.some.injEq, Prod.mk.injEq] at read
    obtain ⟨some, rfl, rfl⟩ := read
    exact ⟨blanks ++ ds, by rw [List.append_assoc, ← cut, ← whole], .mk blank some all short ended⟩
  · rintro ⟨front, rfl, number⟩
    cases number with
    | mk blank some all short ended =>
      have taken := takeDigitsIff.mpr ⟨rfl, all, short, ended⟩
      simp only [number?, skipToDigits blank some all, taken, if_neg some]

theorem numberSkip (limit : Nat) (cs : List Char) : number? limit (skipBlanks cs) = number? limit cs := by
  rw [number?, skipBlanksTwice, number?]

theorem yearUnsigned (unsigned : ∀ c sign, Sign c sign → (skipBlanks cs).head? ≠ some c) :
    year? cs = (number? 4 cs).map fun (n, rest) => ((n : Int), rest) := by
  rw [← numberSkip]
  unfold year?
  simp only
  split
  · rename_i shown
    exact absurd (congrArg List.head? shown) (unsigned '-' (-1) .minus)
  · rename_i shown
    exact absurd (congrArg List.head? shown) (unsigned '+' 1 .plus)
  · rfl

theorem yearSigned (shown : skipBlanks cs = c :: more) (signed : Sign c sign) :
    year? cs = if (takeDigits more.length more).1 = [] then none
      else some (sign * valueOf (takeDigits more.length more).1, (takeDigits more.length more).2) := by
  unfold year?
  rw [shown]
  cases signed <;> rfl

theorem signedIff (shown : skipBlanks cs = c :: more) (signed : Sign c sign) :
    year? cs = some (year, rest) ↔ ∃ ds, more = ds ++ rest ∧ ds ≠ [] ∧ (∀ c ∈ ds, isDigit c = true) ∧
      Ended rest ∧ sign * valueOf ds = year := by
  obtain ⟨ds, left, taken⟩ : ∃ ds left, takeDigits more.length more = (ds, left) := ⟨_, _, rfl⟩
  simp only [yearSigned shown signed, taken, Option.ite_none_left_eq_some, Option.some.injEq, Prod.mk.injEq]
  constructor
  · rintro ⟨some, value, rfl⟩
    obtain ⟨cut, all, ended⟩ := takeDigitsWhole.mp taken
    exact ⟨ds, cut, some, all, ended, value⟩
  · rintro ⟨other, cut, some, all, ended, value⟩
    cases taken.symm.trans (takeDigitsWhole.mpr ⟨cut, all, ended⟩)
    exact ⟨some, value, rfl⟩

theorem yearIff : year? cs = some (year, rest) ↔ ∃ front, cs = front ++ rest ∧ Year front year rest := by
  constructor
  · intro read
    obtain ⟨blanks, blank, whole⟩ := skipBlanksCut cs
    by_cases first : ∃ c sign, Sign c sign ∧ (skipBlanks cs).head? = some c
    · obtain ⟨c, sign, signed, first⟩ := first
      obtain ⟨more, shown⟩ := List.head?_eq_some_iff.mp first
      obtain ⟨ds, rfl, some, all, ended, rfl⟩ := (signedIff shown signed).mp read
      exact ⟨blanks ++ c :: ds, by simpa [shown] using whole, .signed blank signed some all ended⟩
    · rw [yearUnsigned fun c sign signed shown => first ⟨c, sign, signed, shown⟩] at read
      obtain ⟨⟨n, left⟩, number, same⟩ := Option.map_eq_some_iff.mp read
      obtain ⟨front, cut, number⟩ := numberIff.mp number
      cases same
      exact ⟨front, cut, .plain number⟩
  · rintro ⟨front, rfl, year⟩
    cases year with
    | plain number =>
      have read := numberIff.mpr ⟨front, rfl, number⟩
      cases number with
      | mk blank some all short ended =>
        rw [yearUnsigned, read]
        · rfl
        · intro c sign signed first
          rw [skipToDigits blank some all, List.head?_append_of_ne_nil _ some] at first
          have digit := all c (List.mem_of_head? first)
          cases signed <;> cases digit
    | signed blank signed some all ended =>
      rename_i blanks c sign ds
      have visible : isBlank c = false := by cases signed <;> rfl
      have shown : skipBlanks (blanks ++ c :: ds ++ rest) = c :: (ds ++ rest) := by
        rw [List.append_assoc, skipBlanksBehind blank]
        exact skipBlanksOfNot _ visible
      exact (signedIff shown signed).mpr ⟨ds, rfl, some, all, ended, rfl⟩

theorem endedCut (other : isDigit c = false) : Ended (rest ++ c :: more) ↔ Ended rest := by
  cases rest with
  | nil => simp [Ended, other]
  | cons d rest => rfl

theorem numberCut (other : isDigit c = false) (rest : List Char) :
    Number limit front n (rest ++ c :: more) ↔ Number limit front n rest := by
  constructor
  · rintro ⟨blank, some, all, short, ended⟩
    exact .mk blank some all short (ended.imp_right (endedCut other).mp)
  · rintro ⟨blank, some, all, short, ended⟩
    exact .mk blank some all short (ended.imp_right (endedCut other).mpr)

theorem yearCut (other : isDigit c = false) (rest : List Char) :
    Year front year (rest ++ c :: more) ↔ Year front year rest := by
  constructor
  · rintro (number | ⟨blank, signed, some, all, ended⟩)
    · exact .plain ((numberCut other rest).mp number)
    · exact .signed blank signed some all ((endedCut other).mp ended)
  · rintro (number | ⟨blank, signed, some, all, ended⟩)
    · exact .plain ((numberCut other rest).mpr number)
    · exact .signed blank signed some all ((endedCut other).mpr ended)

theorem barIff : afterStart? ['_'] cs = some rest ↔ cs = '_' :: rest := by
  constructor
  · exact afterStart?_some
  · rintro rfl
    exact afterStart?_append ['_'] rest

end Numbers

theorem ofStampIff {cs : List Char} {t : Instant} : ofStamp? cs = some t ↔
    ∃ date time d hour minute second, cs = date ++ '_' :: time ∧ SpellsDate date d ∧
      SpellsTime time hour minute second ∧ Civil.instant? ⟨d, hour, minute, second, 0⟩ 0 = some t := by
  have other : isDigit '_' = false := rfl
  simp only [ofStamp?, Option.bind_eq_bind, Option.bind_eq_some_iff, Prod.exists, yearIff, numberIff,
    barIff, Option.ite_none_right_eq_some]
  constructor
  · rintro ⟨year, _, ⟨y, rfl, spelledYear⟩, month, _, ⟨m, rfl, spelledMonth⟩, day, _, ⟨d, rfl, spelledDay⟩,
      time, rfl, hour, _, ⟨h, rfl, spelledHour⟩, minute, _, ⟨i, rfl, spelledMinute⟩, second, _,
      ⟨s, rfl, spelledSecond⟩, rfl, given⟩
    rw [← List.append_assoc] at spelledYear
    refine ⟨y ++ m ++ d, h ++ i ++ s, ⟨year, month, day⟩, hour, minute, second, by simp, ?_, ?_, given⟩
    · exact ⟨y, m, d, rfl, (yearCut other _).mp spelledYear, (numberCut other _).mp spelledMonth,
        (numberCut other []).mp spelledDay⟩
    · exact ⟨h, i, s, rfl, by simpa using spelledHour, by simpa using spelledMinute, spelledSecond⟩
  · rintro ⟨_, _, ⟨year, month, day⟩, hour, minute, second, rfl, ⟨y, m, d, rfl, spelledYear, spelledMonth,
      spelledDay⟩, ⟨h, i, s, rfl, spelledHour, spelledMinute, spelledSecond⟩, given⟩
    refine ⟨year, m ++ (d ++ '_' :: (h ++ i ++ s)), ⟨y, by simp, ?_⟩, month, _, ⟨m, rfl, ?_⟩, day, _,
      ⟨d, rfl, ?_⟩, h ++ i ++ s, rfl, hour, i ++ s, ⟨h, by simp, ?_⟩, minute, s, ⟨i, rfl, ?_⟩, second, [],
      ⟨s, by simp, spelledSecond⟩, rfl, given⟩
    · rw [← List.append_assoc]
      exact (yearCut other _).mpr spelledYear
    · exact (numberCut other _).mpr spelledMonth
    · exact (numberCut other []).mpr spelledDay
    · exact spelledHour
    · exact spelledMinute

theorem stampIff {date time : List Char} {t : Instant} (dated : '_' ∉ date) (timed : '_' ∉ time) :
    ofStamp? (date ++ '_' :: time) = some t ↔ ∃ d hour minute second, SpellsDate date d ∧
      SpellsTime time hour minute second ∧ Civil.instant? ⟨d, hour, minute, second, 0⟩ 0 = some t := by
  rw [ofStampIff]
  constructor
  · rintro ⟨date', time', d, hour, minute, second, same, spelled⟩
    obtain ⟨rfl, rfl⟩ := cutOnce same dated timed
    exact ⟨d, hour, minute, second, spelled⟩
  · rintro ⟨d, hour, minute, second, spelled⟩
    exact ⟨date, time, d, hour, minute, second, rfl, spelled⟩

section Digits
variable {front rest cs : List Char} {limit n : Nat} {year : Int} {d : Date} {hour minute second : Nat}

theorem numberDigits (number : Number limit front n rest) (digits : ∀ c ∈ front, isDigit c = true) :
    front.length ≤ limit ∧ n = valueOf front := by
  obtain ⟨blank, some, all, short, ended⟩ := number
  rename_i blanks ds
  have none : blanks = [] := by
    refine List.eq_nil_iff_forall_not_mem.mpr fun c member => ?_
    have shown := digitVisible (digits c (List.mem_append_left _ member))
    exact Bool.false_ne_true (shown.symm.trans (blank c member))
  subst none
  exact ⟨short, rfl⟩

theorem yearDigits (spelled : Year front year rest) (digits : ∀ c ∈ front, isDigit c = true) :
    front.length ≤ 4 ∧ year = valueOf front := by
  obtain (number | ⟨blank, signed, some, all, ended⟩) := spelled
  · obtain ⟨short, value⟩ := numberDigits number digits
    exact ⟨short, congrArg _ value⟩
  · rename_i blanks c sign ds
    have digit := digits c (by simp)
    cases signed <;> cases digit

theorem numberFull (digits : Digits (limit + 1) front) : Number (limit + 1) front (valueOf front) rest := by
  obtain ⟨full, all⟩ := digits
  have some : front ≠ [] := List.ne_nil_of_length_eq_add_one full
  have number : Number (limit + 1) ([] ++ front) (valueOf front) rest :=
    .mk nofun some all (Nat.le_of_eq full) (.inl full)
  exact number

theorem dateDigitsIff : DateDigits cs d ↔
    SpellsDate cs d ∧ cs.length = 8 ∧ ∀ c ∈ cs, isDigit c = true := by
  constructor
  · rintro ⟨y, m, e, rfl, year, month, day, rfl⟩
    refine ⟨⟨y, m, e, rfl, .plain (numberFull year), numberFull month, numberFull day⟩, ?_, ?_⟩
    · simp [year.1, month.1, day.1]
    · simp only [List.forall_mem_append]
      exact ⟨⟨year.2, month.2⟩, day.2⟩
  · rintro ⟨⟨y, m, e, rfl, spelledYear, spelledMonth, spelledDay⟩, long, digits⟩
    simp only [List.forall_mem_append] at digits
    obtain ⟨⟨yearAll, monthAll⟩, dayAll⟩ := digits
    obtain ⟨fewYear, year⟩ := yearDigits spelledYear yearAll
    obtain ⟨fewMonth, month⟩ := numberDigits spelledMonth monthAll
    obtain ⟨fewDay, day⟩ := numberDigits spelledDay dayAll
    simp only [List.length_append] at long
    refine ⟨y, m, e, rfl, ⟨by omega, yearAll⟩, ⟨by omega, monthAll⟩, ⟨by omega, dayAll⟩, ?_⟩
    rw [← year, ← month, ← day]

theorem timeDigitsIff : TimeDigits cs hour minute second ↔
    SpellsTime cs hour minute second ∧ cs.length = 6 ∧ ∀ c ∈ cs, isDigit c = true := by
  constructor
  · rintro ⟨h, m, s, rfl, hours, minutes, seconds, rfl, rfl, rfl⟩
    refine ⟨⟨h, m, s, rfl, numberFull hours, numberFull minutes, numberFull seconds⟩, ?_, ?_⟩
    · simp [hours.1, minutes.1, seconds.1]
    · simp only [List.forall_mem_append]
      exact ⟨⟨hours.2, minutes.2⟩, seconds.2⟩
  · rintro ⟨⟨h, m, s, rfl, spelledHour, spelledMinute, spelledSecond⟩, long, digits⟩
    simp only [List.forall_mem_append] at digits
    obtain ⟨⟨hourAll, minuteAll⟩, secondAll⟩ := digits
    obtain ⟨fewHours, hours⟩ := numberDigits spelledHour hourAll
    obtain ⟨fewMinutes, minutes⟩ := numberDigits spelledMinute minuteAll
    obtain ⟨fewSeconds, seconds⟩ := numberDigits spelledSecond secondAll
    simp only [List.length_append] at long
    exact ⟨h, m, s, rfl, ⟨by omega, hourAll⟩, ⟨by omega, minuteAll⟩, ⟨by omega, secondAll⟩, hours, minutes,
      seconds⟩

end Digits

/-- A second or a leap second without a fraction. -/
def WholeSecond (t : Instant) : Prop := t.nanos = 0 ∨ t.nanos = 1000000000

def stampDate (t : Instant) : List Char :=
  yearText t.civil.date.year ++ padded 2 t.civil.date.month ++ padded 2 t.civil.date.day

def stampTime (t : Instant) : List Char :=
  padded 2 t.civil.hour ++ padded 2 t.civil.minute ++ padded 2 t.civil.second

section Written
variable {t : Instant} {width n : Nat} {c : Char}

theorem wholeIff : t.WholeSecond ↔ t.civil.nanos = 0 := by
  obtain ⟨_, _, short, _⟩ := t.admissible
  simp only [WholeSecond, civil]
  split <;> omega

theorem wholeStamp {cs : List Char} (read : ofStamp? cs = some t) : t.WholeSecond := by
  obtain ⟨_, _, d, hour, minute, second, _, _, _, given⟩ := ofStampIff.mp read
  rw [wholeIff, civilRead given]

theorem stampCut (t : Instant) : t.stamp = t.stampDate ++ '_' :: t.stampTime := by
  simp [stamp, stampDate, stampTime]

theorem paddedDigits (wide : 0 < width) (below : n < Nat.pow 10 width) : Digits width (padded width n) :=
  ⟨paddedLength wide below, paddedAll width n⟩

theorem dateWritten (first : 0 ≤ t.civil.date.year) (last : t.civil.date.year ≤ 9999) :
    DateDigits t.stampDate t.civil.date := by
  obtain ⟨date, _⟩ := civilValid t
  obtain ⟨month, day⟩ := Date.validMonth date
  have four : yearText t.civil.date.year = padded 4 t.civil.date.year.toNat := if_pos ⟨first, last⟩
  refine ⟨_, _, _, rfl, ?_, paddedDigits (by decide) (by simp; omega),
    paddedDigits (by decide) (by simp; omega), ?_⟩
  · rw [four]
    exact paddedDigits (by decide) (by simp; omega)
  · rw [four, valueOf_padded, valueOf_padded, valueOf_padded, Int.toNat_of_nonneg first]

theorem timeWritten (t : Instant) :
    TimeDigits t.stampTime t.civil.hour t.civil.minute t.civil.second := by
  obtain ⟨_, _, _, hour, minute, second, _⟩ := civilValid t
  refine ⟨_, _, _, rfl, paddedDigits (by decide) (by simp; omega), paddedDigits (by decide) (by simp; omega),
    paddedDigits (by decide) (by simp; omega), ?_⟩
  simp only [valueOf_padded, and_self]

theorem stampRead (whole : t.WholeSecond) (first : 0 ≤ t.civil.date.year)
    (last : t.civil.date.year ≤ 9999) : ofStamp? t.stamp = some t := by
  have date := (dateDigitsIff.mp (dateWritten first last)).1
  have time := (timeDigitsIff.mp (timeWritten t)).1
  have given := civilInstant t
  have civil : t.civil = ⟨t.civil.date, t.civil.hour, t.civil.minute, t.civil.second, 0⟩ := by
    rw [← wholeIff.mp whole]
  rw [civil] at given
  exact ofStampIff.mpr ⟨_, _, _, _, _, _, stampCut t, date, time, given⟩

theorem paddedFree (other : isDigit c = false) (width n : Nat) : c ∉ padded width n :=
  digitsFree other (paddedAll width n)

theorem dateFree (other : isDigit c = false) (plus : c ≠ '+') (minus : c ≠ '-') : c ∉ t.stampDate := by
  have free := paddedFree other
  have year : c ∉ yearText t.civil.date.year := by
    unfold yearText
    split_ifs
    · exact free _ _
    · exact List.not_mem_cons_of_ne_of_not_mem minus (free _ _)
    · exact List.not_mem_cons_of_ne_of_not_mem plus (free _ _)
  simp [stampDate, year, free]

theorem timeFree (other : isDigit c = false) : c ∉ t.stampTime := by
  simp [stampTime, paddedFree other]

theorem dateLong (outside : ¬ (0 ≤ t.civil.date.year ∧ t.civil.date.year ≤ 9999)) :
    8 < t.stampDate.length := by
  have least (width n : Nat) : width ≤ (padded width n).length := by simp [padded]; omega
  have month := least 2 t.civil.date.month
  have day := least 2 t.civil.date.day
  have year := least 4 t.civil.date.year.natAbs
  simp only [stampDate, yearText, if_neg outside, List.length_append, List.length_cons]
  omega

end Written
end Instant
end BackupRotation
