import BackupRotation.Text.Blank
import BackupRotation.Text.Digits
import Mathlib.Tactic
/-! Numbers in decimal, written and read again with a text behind them, and the texts that are read as
numbers. A run of digits ends where its width does, or where no digit follows. -/
namespace BackupRotation.Text

/-- The text does not go on with a digit. -/
def Ended (rest : List Char) : Prop := ∀ c ∈ rest.head?, isDigit c = false

section Digits
variable {ds rest cs : List Char} {c d : Char} {n width limit : Nat}

theorem digitOther (digit : isDigit c = true) (other : isDigit d = false) : c ≠ d := by
  rintro rfl
  cases digit.symm.trans other

theorem digitsFree (other : isDigit c = false) (all : ∀ c ∈ ds, isDigit c = true) : c ∉ ds :=
  fun member => digitOther (all c member) other rfl

theorem digitCode (digit : isDigit c = true) : 48 ≤ c.toNat ∧ c.toNat ≤ 57 := by
  simpa [isDigit, Char.le_def, UInt32.le_iff_toNat_le] using digit

theorem digitVisible (digit : isDigit c = true) : isBlank c = false := by
  have code := digitCode digit
  simp only [isBlank, Bool.or_eq_false_iff, Bool.and_eq_false_iff, decide_eq_false_iff_not,
    beq_eq_false_iff_ne]
  omega

theorem digitsRun (all : ∀ c ∈ ds, isDigit c = true) (ended : Ended rest) :
    (ds ++ rest).takeWhile isDigit = ds := by
  rw [List.takeWhile_append_of_pos all]
  cases rest with
  | nil => simp
  | cons c rest => simp [ended c rfl]

theorem digitsAll (n : Nat) : ∀ c ∈ digits n, isDigit c = true := fun _ member => isDigitOfMem member

theorem digitsFilled (n : Nat) : ∃ c cs, digits n = c :: cs ∧ isDigit c = true := by
  cases written : digits n with
  | nil => exact absurd written Nat.toDigits_ne_nil
  | cons c cs => exact ⟨c, cs, rfl, digitsAll n c (by simp [written])⟩

theorem digitsLead (positive : 0 < n) : (digits n).head? ≠ some '0' := by
  induction n using Nat.strongRecOn with
  | ind n ih =>
    by_cases small : n < 10
    · simp [digits, Nat.toDigits_of_lt_base small, Nat.ne_of_gt positive]
    · have less := ih (n / 10) (by omega) (by omega)
      obtain ⟨c, cs, written, _⟩ := digitsFilled (n / 10)
      rw [digits] at written less ⊢
      rw [Nat.toDigits_of_base_le (by decide) (Nat.not_lt.mp small), written, List.cons_append]
      rwa [written] at less

theorem paddedLength (wide : 0 < width) (below : n < Nat.pow 10 width) :
    (padded width n).length = width := by
  have short : (digits n).length ≤ width := (Nat.length_toDigits_le_iff (by decide) wide).mpr below
  simp only [padded, List.length_append, List.length_replicate]
  omega

theorem paddedAll (width n : Nat) : ∀ c ∈ padded width n, isDigit c = true := by
  intro c member
  rcases List.mem_append.mp member with zero | digit
  · rw [List.eq_of_mem_replicate zero]
    rfl
  · exact digitsAll n c digit

theorem paddedFilled (width n : Nat) : ∃ c cs, padded width n = c :: cs ∧ isDigit c = true := by
  cases written : padded width n with
  | nil => exact absurd (List.append_eq_nil_iff.mp written).2 Nat.toDigits_ne_nil
  | cons c cs => exact ⟨c, cs, rfl, paddedAll width n c (by simp [written])⟩

theorem naturalPadded (width n : Nat) : natural? (padded width n) = some n := by
  obtain ⟨c, cs, written, _⟩ := paddedFilled width n
  have filled : padded width n ≠ [] := by simp [written]
  have all : (padded width n).all isDigit = true := List.all_eq_true.mpr (paddedAll width n)
  rw [natural?, if_pos ⟨filled, all⟩, valueOf_padded]

theorem endedTake (ended : Ended rest) (room : Nat) : Ended (rest.take room) := by
  cases rest with
  | nil => simpa using ended
  | cons c rest =>
    cases room with
    | zero => simp [Ended]
    | succ room => exact ended

theorem takeDigitsRun (all : ∀ c ∈ ds, isDigit c = true) (short : ds.length ≤ limit)
    (ended : Ended (rest.take (limit - ds.length))) : takeDigits limit (ds ++ rest) = (ds, rest) := by
  have run := digitsRun all ended
  simp only [takeDigits, List.take_append, List.take_of_length_le short, run, List.drop_left]

theorem takeDigitsEnded (all : ∀ c ∈ ds, isDigit c = true) (short : ds.length ≤ limit)
    (ended : Ended rest) : takeDigits limit (ds ++ rest) = (ds, rest) :=
  takeDigitsRun all short (endedTake ended _)

theorem takeDigitsMore (digit : isDigit c = true) (limit : Nat) (cs : List Char) :
    takeDigits (limit + 1) (c :: cs) = (c :: (takeDigits limit cs).1, (takeDigits limit cs).2) := by
  simp [takeDigits, digit]

theorem takeDigitsStop (other : isDigit c = false) (limit : Nat) (cs : List Char) :
    takeDigits limit (c :: cs) = ([], c :: cs) := by
  cases limit with
  | zero => rfl
  | succ limit => simp [takeDigits, other]

theorem takeDigitsCut (limit : Nat) (cs : List Char) :
    cs = (takeDigits limit cs).1 ++ (takeDigits limit cs).2 ∧
      (∀ c ∈ (takeDigits limit cs).1, isDigit c = true) ∧ (takeDigits limit cs).1.length ≤ limit ∧
      ((takeDigits limit cs).1.length = limit ∨ Ended (takeDigits limit cs).2) := by
  induction limit generalizing cs with
  | zero => simp [takeDigits]
  | succ limit ih =>
    cases cs with
    | nil => simp [takeDigits, Ended]
    | cons c cs =>
      cases digit : isDigit c with
      | false =>
        rw [takeDigitsStop digit]
        simp [Ended, digit]
      | true =>
        obtain ⟨whole, all, short, ended⟩ := ih cs
        rw [takeDigitsMore digit]
        refine ⟨congrArg (c :: ·) whole, List.forall_mem_cons.mpr ⟨digit, all⟩, ?_, ?_⟩
        · exact Nat.succ_le_succ short
        · exact ended.imp_left (congrArg Nat.succ)

theorem takeDigitsIff : takeDigits limit cs = (ds, rest) ↔ cs = ds ++ rest ∧
    (∀ c ∈ ds, isDigit c = true) ∧ ds.length ≤ limit ∧ (ds.length = limit ∨ Ended rest) := by
  constructor
  · intro taken
    have cut := takeDigitsCut limit cs
    rwa [taken] at cut
  · rintro ⟨rfl, all, short, ended⟩
    refine takeDigitsRun all short ?_
    rcases ended with full | ended
    · simp [full, Ended]
    · exact endedTake ended _

theorem takeDigitsWhole : takeDigits cs.length cs = (ds, rest) ↔
    cs = ds ++ rest ∧ (∀ c ∈ ds, isDigit c = true) ∧ Ended rest := by
  rw [takeDigitsIff]
  refine and_congr_right fun cut => and_congr_right fun _ => ?_
  subst cut
  constructor
  · rintro ⟨_, full | ended⟩
    · have none : rest = [] := by simpa using full
      exact none ▸ nofun
    · exact ended
  · intro ended
    exact ⟨by simp, .inr ended⟩

theorem valueBelow (all : ∀ c ∈ ds, isDigit c = true) : valueOf ds < 10 ^ ds.length := by
  induction ds using List.reverseRecOn with
  | nil => simp [valueOf]
  | append_singleton ds c ih =>
    obtain ⟨front, last⟩ := List.forall_mem_append.mp all
    have code := digitCode (last c (by simp))
    have less := ih front
    have value : valueOf (ds ++ [c]) = 10 * valueOf ds + (c.toNat - 48) := by
      simp [valueOf, Nat.ofDigitChars_append, Nat.ofDigitChars_cons]
    rw [value, List.length_append, List.length_singleton, Nat.pow_succ]
    omega

theorem takePadded (wide : 0 < width) (below : n < Nat.pow 10 width) :
    takeDigits width (padded width n ++ rest) = (padded width n, rest) := by
  have length := paddedLength wide below
  refine takeDigitsRun (paddedAll width n) (Nat.le_of_eq length) ?_
  simp [length, Ended]

end Digits

section Signs
variable {cs : List Char} {n : Int} {sep : Char}

theorem naturalNotSigned {ds : List Char} (all : ∀ c ∈ ds, isDigit c = true) :
    integer? ds = (natural? ds).map Int.ofNat := by
  cases ds with
  | nil => rfl
  | cons c cs =>
    have digit := all c List.mem_cons_self
    have plus : c ≠ '+' := digitOther digit rfl
    have minus : c ≠ '-' := digitOther digit rfl
    unfold integer?
    split <;> simp_all

theorem integerSigned (n : Int) : integer? (signedDigits n) = some n := by
  unfold signedDigits
  split
  · simp only [integer?, natural?_digits, Option.map_some, Option.some.injEq, Int.ofNat_eq_natCast]
    omega
  · simp only [naturalNotSigned (digitsAll _), natural?_digits, Option.map_some, Option.some.injEq,
      Int.ofNat_eq_natCast]
    omega

theorem integer64Signed (n : Int) : integer64? (signedDigits n) =
    if -9223372036854775808 ≤ n ∧ n < 9223372036854775808 then some n else none := by
  simp [integer64?, integerSigned, Option.filter]

theorem natural64Digits {n : Nat} (below : n < 18446744073709551616) : natural64? (digits n) = some n := by
  obtain ⟨c, cs, written, digit⟩ := digitsFilled n
  have plus : c ≠ '+' := digitOther digit rfl
  have read := natural?_digits n
  rw [written] at read ⊢
  simp only [natural64?, List.cons.injEq, plus, false_and, imp_false, not_false_eq_true, implies_true, read,
    Option.filter_some, decide_eq_true below, if_true]

theorem natural64Below {n : Nat} (read : natural64? cs = some n) : n < 18446744073709551616 := by
  simp only [natural64?, Option.filter_eq_some_iff] at read
  exact of_decide_eq_true read.2

/-- Decimal digits behind a sign or without one, and the number that they write. -/
inductive Numeral : List Char → Int → Prop where
  | unsigned {ds} (some : ds ≠ []) (all : ∀ c ∈ ds, isDigit c = true) : Numeral ds (valueOf ds)
  | plus {ds} (some : ds ≠ []) (all : ∀ c ∈ ds, isDigit c = true) : Numeral ('+' :: ds) (valueOf ds)
  | minus {ds} (some : ds ≠ []) (all : ∀ c ∈ ds, isDigit c = true) : Numeral ('-' :: ds) (-valueOf ds)

theorem naturalIff {sign : Nat → Int} : (natural? cs).map sign = some n ↔
    (cs ≠ [] ∧ ∀ c ∈ cs, isDigit c = true) ∧ sign (valueOf cs) = n := by
  simp only [natural?, List.all_eq_true]
  split
  · rename_i shape
    simp only [Option.map_some, Option.some.injEq, iff_true_intro shape, true_and]
  · rename_i shape
    simp only [Option.map_none, reduceCtorEq, shape, false_and]

theorem integerIff : integer? cs = some n ↔ Numeral cs n := by
  constructor
  · intro read
    unfold integer? at read
    split at read
    · obtain ⟨⟨some, all⟩, rfl⟩ := naturalIff.mp read
      exact .plus some all
    · obtain ⟨⟨some, all⟩, rfl⟩ := naturalIff.mp read
      exact .minus some all
    · obtain ⟨⟨some, all⟩, rfl⟩ := naturalIff.mp read
      exact .unsigned some all
  · rintro (⟨some, all⟩ | ⟨some, all⟩ | ⟨some, all⟩)
    · rw [naturalNotSigned all]
      exact naturalIff.mpr ⟨⟨some, all⟩, rfl⟩
    · exact naturalIff.mpr ⟨⟨some, all⟩, rfl⟩
    · exact naturalIff.mpr ⟨⟨some, all⟩, rfl⟩

theorem integer64Iff : integer64? cs = some n ↔
    Numeral cs n ∧ -9223372036854775808 ≤ n ∧ n < 9223372036854775808 := by
  rw [integer64?, Option.filter_eq_some_iff, integerIff]
  simp

theorem numeralCharacters (numeral : Numeral cs n) : ∀ c ∈ cs, c = '+' ∨ c = '-' ∨ isDigit c = true := by
  intro c member
  cases numeral with
  | unsigned some all => exact .inr (.inr (all c member))
  | plus some all => exact (List.mem_cons.mp member).imp_right fun digit => .inr (all c digit)
  | minus some all => exact .inr ((List.mem_cons.mp member).imp_right fun digit => all c digit)

theorem numeralVisible (numeral : Numeral cs n) : ∀ c ∈ cs, isBlank c = false := by
  intro c member
  rcases numeralCharacters numeral c member with rfl | rfl | digit
  · rfl
  · rfl
  · exact digitVisible digit

theorem numeralFree (numeral : Numeral cs n) (plus : sep ≠ '+') (minus : sep ≠ '-')
    (other : isDigit sep = false) : sep ∉ cs := by
  intro member
  rcases numeralCharacters numeral sep member with same | same | digit
  · exact plus same
  · exact minus same
  · exact digitOther digit other rfl

end Signs
end BackupRotation.Text
