import BackupRotation.Instant.Basic
/-! The civil form of a point in time: calendar date and time of day, second 60 for a leap second. Its
year lies in the range of the years of points in time, whatever the zone. -/
namespace BackupRotation

structure Civil where
  date : Date
  hour : Nat
  minute : Nat
  second : Nat
  nanos : Nat
  deriving DecidableEq, Repr

namespace Civil

def firstYear : Int := -262143
def lastYear : Int := 262142

def Valid (c : Civil) : Prop :=
  c.date.Valid ∧ firstYear ≤ c.date.year ∧ c.date.year ≤ lastYear ∧ c.hour < 24 ∧ c.minute < 60 ∧ c.second ≤ 60 ∧ c.nanos < 1000000000
instance (c : Civil) : Decidable c.Valid := by unfold Valid; infer_instance

def instant? (c : Civil) (offset : Int) : Option Instant :=
  if c.Valid then
    let leap := c.second = 60
    let second : Nat := if leap then 59 else c.second
    let dial := c.date.toDays * 86400 + (c.hour * 3600 + c.minute * 60 + second : Nat)
    Instant.ofUnix? (dial - offset) (if leap then c.nanos + 1000000000 else c.nanos)
  else none

end Civil

namespace Instant

def civil (t : Instant) : Civil :=
  let second := t.secondOfDay.toNat
  let leap := 1000000000 ≤ t.nanos
  { date := Date.ofDays (t.seconds / 86400)
    hour := second / 3600
    minute := second / 60 % 60
    second := if leap then second % 60 + 1 else second % 60
    nanos := if leap then t.nanos - 1000000000 else t.nanos }

end Instant
end BackupRotation
