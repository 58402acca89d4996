/-! Whole numbers in decimal: reading with and without a sign, writing, and writing at a least
width. Limits of a number's range belong to whoever reads it. Hexadecimal digits are read in either
case, and characters are named by their code point. -/
namespace BackupRotation.Text

def isDigit (c : Char) : Bool := '0' ≤ c && c ≤ '9'

def digits (n : Nat) : List Char := Nat.toDigits 10 n

def padded (width n : Nat) : List Char :=
  let ds := digits n
  List.replicate (width - ds.length) '0' ++ ds

def signedDigits (n : Int) : List Char :=
  if n < 0 then '-' :: digits n.natAbs else digits n.natAbs

def valueOf (ds : List Char) : Nat := Nat.ofDigitChars 10 ds 0

def natural? (cs : List Char) : Option Nat :=
  if cs ≠ [] ∧ cs.all isDigit then some (valueOf cs) else none

def integer? : List Char → Option Int
  | '+' :: cs => (natural? cs).map Int.ofNat
  | '-' :: cs => (natural? cs).map fun n => -Int.ofNat n
  | cs => (natural? cs).map Int.ofNat

def integer64? (cs : List Char) : Option Int :=
  (integer? cs).filter fun n => -9223372036854775808 ≤ n && n < 9223372036854775808

def natural64? (cs : List Char) : Option Nat :=
  let unsigned := match cs with
    | '+' :: ds => natural? ds
    | _ => natural? cs
  unsigned.filter fun n => n < 18446744073709551616

def takeDigits (limit : Nat) (cs : List Char) : List Char × List Char :=
  let ds := (cs.take limit).takeWhile isDigit
  (ds, cs.drop ds.length)

theorem valueOf_digits (n : Nat) : valueOf (digits n) = n := Nat.ofDigitChars_ten_toDigits

theorem valueOf_padded (width n : Nat) : valueOf (padded width n) = n := by
  simp [valueOf, padded, digits, Nat.ofDigitChars_append, Nat.ofDigitChars_replicate_zero,
    Nat.ofDigitChars_ten_toDigits]

theorem isDigitOfMem {n : Nat} {c : Char} (h : c ∈ digits n) : isDigit c := by
  have := Nat.isDigit_of_mem_toDigits (by decide) (by decide) h
  simpa [isDigit, Char.isDigit, Char.le_def] using this

theorem natural?_digits (n : Nat) : natural? (digits n) = some n := by
  have nonempty : digits n ≠ [] := Nat.toDigits_ne_nil
  have all : (digits n).all isDigit := List.all_eq_true.mpr fun c hc => isDigitOfMem hc
  simp [natural?, nonempty, all, valueOf_digits]

def hexDigit? (c : Char) : Option Nat :=
  if '0' ≤ c ∧ c ≤ '9' then some (c.toNat - 48)
  else if 'a' ≤ c ∧ c ≤ 'f' then some (c.toNat - 87)
  else if 'A' ≤ c ∧ c ≤ 'F' then some (c.toNat - 55)
  else none

def hexValue? : List Char → Option Nat
  | cs => cs.foldl (fun n c => do some ((← n) * 16 + (← hexDigit? c))) (some 0)

def hexChar (n : Nat) : Char := Nat.digitChar n

def ofCodePoint? (n : Nat) : Option Char :=
  if n < 0xD800 ∨ (0xDFFF < n ∧ n < 0x110000) then some (Char.ofNat n) else none

example : hexValue? "00eF".toList = some 239 := by decide

end BackupRotation.Text
