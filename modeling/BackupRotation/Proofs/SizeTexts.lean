import BackupRotation.Measure
import BackupRotation.Proofs.Numerals
import BackupRotation.Proofs.Roundings
import BackupRotation.Text.Split
/-! Sizes read back from their texts, as a figure and its unit. A larger size never shows less. The unit is
chosen before the figure is rounded, so a size just below the next unit shows a full 1024 of its own. -/
namespace BackupRotation

namespace Measure
open Binary64 Text

def SizeUnit.all : List SizeUnit := [.byte, .kilobyte, .megabyte, .gigabyte]

def SizeUnit.ofName? (name : List Char) : Option SizeUnit := all.find? fun u => u.name.toList = name

structure ShownSize where
  figure : ℚ
  unit : SizeUnit
  deriving DecidableEq, Repr

def ShownSize.bytes (s : ShownSize) : ℚ := s.figure * s.unit.bytes

/-- Digits with a point among them, or without one. -/
def figure? (cs : List Char) : Option ℚ :=
  match splitFirst? '.' cs with
  | none => do
    let n ← natural? cs
    some (n : ℚ)
  | some (whole, part) => do
    let n ← natural? whole
    let m ← natural? part
    some (n + m / 10 ^ part.length)

def readSize? (cs : List Char) : Option ShownSize := do
  let (number, name) ← splitFirst? ' ' cs
  let figure ← figure? number
  let unit ← SizeUnit.ofName? name
  some ⟨figure, unit⟩

section Units
variable {size a b : Nat} {u : SizeUnit}

theorem sizeUnitNamed (u : SizeUnit) : SizeUnit.ofName? u.name.toList = some u := by cases u <;> decide

theorem unitPositive (u : SizeUnit) : 0 < u.bytes := by cases u <;> decide

theorem sizeUnitIff : sizeUnit size = u ↔
    (u = .byte ∨ u.bytes ≤ size) ∧ (u = .gigabyte ∨ size < 1024 * u.bytes) := by
  unfold sizeUnit
  split_ifs <;> cases u <;> simp [SizeUnit.bytes] <;> omega

theorem byteSmall (bytes : sizeUnit size = .byte) : size < 1024 := by
  simpa [SizeUnit.bytes] using (sizeUnitIff.mp bytes).2

theorem unitCrossed (order : a ≤ b) (apart : sizeUnit a ≠ sizeUnit b) :
    a < (sizeUnit b).bytes ∧ (sizeUnit b).bytes ≤ b ∧ (sizeUnit a).bytes ∣ (sizeUnit b).bytes := by
  have first := sizeUnitIff.mp (rfl : sizeUnit a = sizeUnit a)
  have second := sizeUnitIff.mp (rfl : sizeUnit b = sizeUnit b)
  generalize sizeUnit a = u at *
  generalize sizeUnit b = v at *
  cases u <;> cases v <;> simp [SizeUnit.bytes] at * <;> omega

end Units

section Figures
variable {size a b k : Nat}

theorem hundredthsBelow (exact : roundNat (k * (sizeUnit size).bytes) = k * (sizeUnit size).bytes)
    (order : size ≤ k * (sizeUnit size).bytes) : sizeHundredths size ≤ k * 100 := by
  have rises := roundNatRises order
  rw [exact] at rises
  calc sizeHundredths size ≤ roundDiv (k * (sizeUnit size).bytes * 100) (sizeUnit size).bytes :=
        roundDivRises (unitPositive _) (Nat.mul_le_mul_right 100 rises)
    _ = k * 100 := by rw [Nat.mul_right_comm, roundDivWhole (unitPositive _)]

theorem unitExact (u : SizeUnit) : roundNat u.bytes = u.bytes :=
  roundNatShort (by cases u <;> decide)

theorem hundredthsReached (reached : (sizeUnit size).bytes ≤ size) : 100 ≤ sizeHundredths size := by
  have rises := roundNatRises reached
  rw [unitExact] at rises
  calc 100 = roundDiv (100 * (sizeUnit size).bytes) (sizeUnit size).bytes :=
        (roundDivWhole (unitPositive _) 100).symm
    _ ≤ sizeHundredths size := roundDivRises (unitPositive _) (by omega)

theorem hundredthsShort (short : size ≤ 2 ^ 53) :
    sizeHundredths size = roundDiv (size * 100) (sizeUnit size).bytes := by
  rw [sizeHundredths, roundNatShort short]

theorem hundredthsByte (bytes : sizeUnit size = .byte) : sizeHundredths size = size * 100 := by
  have small := byteSmall bytes
  rw [hundredthsShort (by omega), bytes]
  have whole := roundDivWhole Nat.one_pos (size * 100)
  rw [Nat.mul_one] at whole
  exact whole

theorem shownRises (order : a ≤ b) :
    sizeHundredths a * (sizeUnit a).bytes ≤ sizeHundredths b * (sizeUnit b).bytes := by
  by_cases same : sizeUnit a = sizeUnit b
  · rw [sizeHundredths, sizeHundredths, same]
    have rises := Nat.mul_le_mul_right 100 (roundNatRises order)
    exact Nat.mul_le_mul_right _ (roundDivRises (unitPositive _) rises)
  · obtain ⟨before, reached, k, whole⟩ := unitCrossed order same
    rw [Nat.mul_comm] at whole
    -- the unit of the larger size lies between the two and is a whole number of units of the smaller size
    have below := hundredthsBelow (whole ▸ unitExact (sizeUnit b)) (whole ▸ before.le)
    calc sizeHundredths a * (sizeUnit a).bytes ≤ k * 100 * (sizeUnit a).bytes := Nat.mul_le_mul_right _ below
      _ = 100 * (sizeUnit b).bytes := by rw [Nat.mul_right_comm, ← whole, Nat.mul_comm]
      _ ≤ sizeHundredths b * (sizeUnit b).bytes := Nat.mul_le_mul_right _ (hundredthsReached reached)

end Figures

section Reading
variable {size : Nat}

theorem figureWhole (n : Nat) : figure? (digits n) = some (n : ℚ) := by
  have free : '.' ∉ digits n := digitsFree rfl (digitsAll n)
  simp only [figure?, splitFirst?_none free, natural?_digits, Option.bind_eq_bind, Option.bind_some]

theorem figureHundredths (h : Nat) :
    figure? (digits (h / 100) ++ '.' :: padded 2 (h % 100)) = some ((h : ℚ) / 100) := by
  have free : '.' ∉ digits (h / 100) := digitsFree rfl (digitsAll _)
  have two : (padded 2 (h % 100)).length = 2 := paddedLength (by decide) (Nat.mod_lt h (by decide))
  have cut : (100 * (h / 100 : Nat) + (h % 100 : Nat) : ℚ) = h := by exact_mod_cast Nat.div_add_mod h 100
  simp only [figure?, splitFirst?_append _ free, natural?_digits, naturalPadded, two, Option.bind_eq_bind,
    Option.bind_some, Option.some.injEq]
  linarith

def shownSize (size : Nat) : ShownSize := ⟨(sizeHundredths size : ℚ) / 100, sizeUnit size⟩

theorem figureByte (bytes : sizeUnit size = .byte) : (shownSize size).figure = size := by
  rw [shownSize, hundredthsByte bytes]
  push_cast
  ring

theorem readNumber {number : List Char} {figure : ℚ} {u : SizeUnit} (free : ' ' ∉ number)
    (read : figure? number = some figure) :
    readSize? (number ++ ' ' :: u.name.toList) = some ⟨figure, u⟩ := by
  simp only [readSize?, splitFirst?_append _ free, read, sizeUnitNamed, Option.bind_eq_bind, Option.bind_some]

theorem readSizeText (size : Nat) : readSize? (sizeText size) = some (shownSize size) := by
  by_cases bytes : sizeUnit size = .byte
  · have free : ' ' ∉ digits size := digitsFree rfl (digitsAll size)
    simp only [sizeText, if_pos bytes]
    rw [readNumber free (figureWhole size), ← figureByte bytes]
    rfl
  · have whole : ' ' ∉ digits (sizeHundredths size / 100) := digitsFree rfl (digitsAll _)
    have part : ' ' ∉ padded 2 (sizeHundredths size % 100) := digitsFree rfl (paddedAll _ _)
    simp only [sizeText, if_neg bytes]
    rw [readNumber (by simp [whole, part]) (figureHundredths _)]
    rfl

theorem shownBytes (size : Nat) :
    (shownSize size).bytes = (sizeHundredths size * (sizeUnit size).bytes : Nat) / 100 := by
  rw [ShownSize.bytes, shownSize]
  push_cast
  ring

theorem shownNear (short : size ≤ 2 ^ 53) :
    |(shownSize size).bytes - size| ≤ 5 / 1000 * (shownSize size).unit.bytes := by
  obtain ⟨below, above⟩ := roundDivNear (size * 100) (unitPositive (sizeUnit size))
  rw [← hundredthsShort short] at below above
  qify at below above
  rw [shownBytes, abs_le]
  push_cast
  constructor <;> simp only [shownSize] <;> linarith

end Reading

/-- A larger size never shows a smaller one, whatever their units; and up to 53 bits the text is off by half
a hundredth of its unit at most. -/
theorem sizesInOrder :
    (∀ a b, a ≤ b → ∃ v w, readSize? (sizeText a) = some v ∧ readSize? (sizeText b) = some w ∧
      v.bytes ≤ w.bytes) ∧
    ∀ size ≤ 2 ^ 53, ∃ v, readSize? (sizeText size) = some v ∧
      |v.bytes - size| ≤ 5 / 1000 * v.unit.bytes := by
  refine ⟨fun a b order => ?_, fun size short => ⟨_, readSizeText size, shownNear short⟩⟩
  refine ⟨_, _, readSizeText a, readSizeText b, ?_⟩
  have rises := shownRises order
  rw [shownBytes, shownBytes]
  gcongr

theorem sizesInOrderAcross :
    let v : ShownSize := ⟨1024, .kilobyte⟩
    let w : ShownSize := ⟨1, .megabyte⟩
    1048575 ≤ 1048576 ∧ 1048575 ≤ 2 ^ 53 ∧ readSize? (sizeText 1048575) = some v ∧
      readSize? (sizeText 1048576) = some w ∧ v.bytes ≤ w.bytes ∧
      |v.bytes - 1048575| ≤ 5 / 1000 * v.unit.bytes := by
  intro v w
  have readV : readSize? (sizeText 1048575) = some v := by decide +kernel
  have readW : readSize? (sizeText 1048576) = some w := by decide +kernel
  obtain ⟨v', w', first, second, order⟩ := sizesInOrder.1 1048575 1048576 (by decide)
  obtain ⟨v'', third, near⟩ := sizesInOrder.2 1048575 (by decide)
  cases first.symm.trans readV
  cases second.symm.trans readW
  cases third.symm.trans readV
  exact ⟨by decide, by decide, readV, readW, order, by simpa using near⟩

/-- Less than the 1024 that make the next unit and, of kilobytes or megabytes, one at least. -/
def ShownSize.Fits (s : ShownSize) : Prop :=
  (s.unit = .byte → s.figure < 1024) ∧
    (s.unit = .kilobyte ∨ s.unit = .megabyte → 1 ≤ s.figure ∧ s.figure < 1024)

section Fitting
variable {size : Nat}

theorem figureReached (large : sizeUnit size ≠ .byte) :
    (sizeUnit size).bytes ≤ size ∧ 1 ≤ (shownSize size).figure := by
  have reached := (sizeUnitIff.mp (rfl : sizeUnit size = _)).1.resolve_left large
  have above := hundredthsReached reached
  refine ⟨reached, ?_⟩
  qify at above
  simp only [shownSize]
  linarith

theorem unitShort (small : sizeUnit size ≠ .gigabyte) : 1024 * (sizeUnit size).bytes ≤ 2 ^ 53 := by
  revert small
  cases sizeUnit size <;> decide

theorem figureBelow (small : sizeUnit size ≠ .gigabyte) :
    size < 1024 * (sizeUnit size).bytes ∧ (shownSize size).figure ≤ 1024 := by
  have before := (sizeUnitIff.mp (rfl : sizeUnit size = _)).2.resolve_left small
  have below := hundredthsBelow (roundNatShort (unitShort small)) before.le
  refine ⟨before, ?_⟩
  qify at below
  simp only [shownSize]
  linarith

theorem figureFull (small : sizeUnit size ≠ .gigabyte) : (shownSize size).figure < 1024 ↔
    ((sizeUnit size).bytes : ℚ) / 200 < 1024 * (sizeUnit size).bytes - size := by
  have before := (figureBelow small).1
  have short := before.le.trans (unitShort small)
  have reached := evenReached (n := size * 100) (q := 102400) (unitPositive (sizeUnit size)) rfl
  rw [← hundredthsShort short] at reached
  qify at reached
  simp only [shownSize]
  rw [← not_le, ← not_le, not_iff_not]
  constructor
  · intro full
    linarith [reached.mp (by linarith)]
  · intro near
    linarith [reached.mpr (by linarith)]

theorem byteBelow (bytes : sizeUnit size = .byte) : (shownSize size).figure < 1024 := by
  rw [figureByte bytes]
  exact_mod_cast byteSmall bytes

theorem fitsIff : (shownSize size).Fits ↔ (sizeUnit size = .kilobyte ∨ sizeUnit size = .megabyte →
    ((sizeUnit size).bytes : ℚ) / 200 < 1024 * (sizeUnit size).bytes - size) := by
  have between (middle : sizeUnit size = .kilobyte ∨ sizeUnit size = .megabyte) :
      sizeUnit size ≠ .byte ∧ sizeUnit size ≠ .gigabyte := by
    rcases middle with kilo | mega
    · simp [kilo]
    · simp [mega]
  constructor
  · intro fits middle
    exact (figureFull (between middle).2).mp (fits.2 middle).2
  · intro room
    refine ⟨byteBelow, fun middle => ?_⟩
    exact ⟨(figureReached (between middle).1).2, (figureFull (between middle).2).mpr (room middle)⟩

end Fitting

/-- A figure is one of its unit at least and 1024 at most. It is a full 1024 of kilobytes or of megabytes
precisely when no more than half a hundredth is missing to the next unit. -/
theorem unitsFit (size : Nat) : ∃ v, readSize? (sizeText size) = some v ∧
    (v.unit ≠ .byte → v.unit.bytes ≤ size ∧ 1 ≤ v.figure) ∧
    (v.unit ≠ .gigabyte → size < 1024 * v.unit.bytes ∧ v.figure ≤ 1024) ∧
    (v.Fits ↔ (v.unit = .kilobyte ∨ v.unit = .megabyte →
      (v.unit.bytes : ℚ) / 200 < 1024 * v.unit.bytes - size)) :=
  ⟨_, readSizeText size, figureReached, figureBelow, fitsIff⟩

theorem fullFigure : ¬ ∀ size < 18446744073709551616, ∃ v, readSize? (sizeText size) = some v ∧ v.Fits := by
  intro fitting
  obtain ⟨v, read, fits⟩ := fitting 1048575 (by decide)
  have full : readSize? (sizeText 1048575) = some ⟨1024, .kilobyte⟩ := by decide +kernel
  cases read.symm.trans full
  exact absurd (fits.2 (.inl rfl)).2 (lt_irrefl 1024)

end Measure
end BackupRotation
