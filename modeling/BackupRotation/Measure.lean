import BackupRotation.Decision
import BackupRotation.Instant.Written
import BackupRotation.Binary64.Basic
/-! Sizes, ages and reasons as people read them. -/
namespace BackupRotation
namespace Measure
open Text (digits padded)

inductive SizeUnit where
  | byte
  | kilobyte
  | megabyte
  | gigabyte
  deriving DecidableEq, Repr

def SizeUnit.bytes : SizeUnit → Nat
  | byte => 1
  | kilobyte => 1024
  | megabyte => 1048576
  | gigabyte => 1073741824

def SizeUnit.name : SizeUnit → String
  | byte => "B"
  | kilobyte => "KB"
  | megabyte => "MB"
  | gigabyte => "GB"

def sizeUnit (size : Nat) : SizeUnit :=
  if 1073741824 ≤ size then .gigabyte
  else if 1048576 ≤ size then .megabyte
  else if 1024 ≤ size then .kilobyte
  else .byte

/-- Hundredths of the unit, nearest to the binary64 number nearest to the size; a half goes to the
even neighbour both times. -/
def sizeHundredths (size : Nat) : Nat :=
  roundDiv (Binary64.roundNat size * 100) (sizeUnit size).bytes

def sizeText (size : Nat) : List Char :=
  let unit := sizeUnit size
  let number :=
    if unit = .byte then digits size
    else
      let h := sizeHundredths size
      digits (h / 100) ++ '.' :: padded 2 (h % 100)
  number ++ ' ' :: unit.name.toList

inductive AgeUnit where
  | seconds
  | minutes
  | hours
  | days
  | weeks
  deriving DecidableEq, Repr

def AgeUnit.length : AgeUnit → Nat
  | seconds => 1
  | minutes => 60
  | hours => 3600
  | days => 86400
  | weeks => 604800

def AgeUnit.name : AgeUnit → String
  | seconds => "seconds"
  | minutes => "minutes"
  | hours => "hours"
  | days => "days"
  | weeks => "weeks"

def ageUnit (age : Nat) : AgeUnit :=
  if age < 60 then .seconds
  else if age < 3600 then .minutes
  else if age < 86400 then .hours
  else if age < 604800 then .days
  else .weeks

/-- An age in nanoseconds, in whole units. Parts of a second are dropped before the age is taken for
negative. -/
def ageText (nanoseconds : Int) : List Char :=
  let seconds := nanoseconds.tdiv 1000000000
  if seconds < 0 then "in the future".toList
  else
    let unit := ageUnit seconds.toNat
    digits (seconds.toNat / unit.length) ++ ' ' :: unit.name.toList ++ " ago".toList

def reasonText : Reason → List Char
  | .keepAll => "keep-all".toList
  | .recent rank => "newest#".toList ++ digits rank
  | .slot t index => t.name.toList ++ '#' :: digits index

def reasonsText : List Reason → List Char
  | [] => []
  | [r] => reasonText r
  | r :: rs => reasonText r ++ ' ' :: reasonsText rs

example : sizeText 1408 = "1.38 KB".toList ∧ sizeText 1920 = "1.88 KB".toList := by
  decide +kernel

end Measure
end BackupRotation
