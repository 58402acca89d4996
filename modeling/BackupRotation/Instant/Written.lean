import BackupRotation.Text.Digits
import BackupRotation.Instant.Civil
/-! The four written forms of a point in time: the interchange form of RFC 3339, the form of log
lines, the form of tables, and the stamp inside file names. -/
namespace BackupRotation
namespace Instant
open Text (digits padded)

def yearText (year : Int) : List Char :=
  if 0 ≤ year ∧ year ≤ 9999 then padded 4 year.toNat
  else (if year < 0 then '-' else '+') :: padded 4 year.natAbs

def fractionText (nanos : Nat) : List Char :=
  if nanos = 0 then []
  else if nanos % 1000000 = 0 then '.' :: padded 3 (nanos / 1000000)
  else if nanos % 1000 = 0 then '.' :: padded 6 (nanos / 1000)
  else '.' :: padded 9 nanos

def dateText (d : Date) : List Char :=
  yearText d.year ++ '-' :: padded 2 d.month ++ '-' :: padded 2 d.day

def timeText (c : Civil) : List Char :=
  padded 2 c.hour ++ ':' :: padded 2 c.minute ++ ':' :: padded 2 c.second

def interchange (t : Instant) : List Char :=
  let c := t.civil
  dateText c.date ++ 'T' :: timeText c ++ fractionText c.nanos ++ ['Z']

def logged (t : Instant) : List Char :=
  let c := t.civil
  dateText c.date ++ ' ' :: timeText c ++ fractionText c.nanos ++ [' ', 'U', 'T', 'C']

def tabular (t : Instant) : List Char :=
  let c := t.civil
  dateText c.date ++ ' ' :: timeText c

def stamp (t : Instant) : List Char :=
  let c := t.civil
  yearText c.date.year ++ padded 2 c.date.month ++ padded 2 c.date.day ++
    '_' :: padded 2 c.hour ++ padded 2 c.minute ++ padded 2 c.second

end Instant
end BackupRotation
