import BackupRotation.Text.Blank
import BackupRotation.Text.Split
import BackupRotation.Text.Digits
import BackupRotation.Instant.Civil
/-! Reading points in time: the stamp inside file names and the interchange form. Both are lenient
about blanks before a number and about the number of its digits. -/
namespace BackupRotation
namespace Instant
open Text (skipBlanks takeDigits valueOf isDigit isBlank afterStart?)

def number? (limit : Nat) (cs : List Char) : Option (Nat × List Char) :=
  let (ds, rest) := takeDigits limit (skipBlanks cs)
  if ds = [] then none else some (valueOf ds, rest)

def year? (cs : List Char) : Option (Int × List Char) :=
  let signed (sign : Int) (cs : List Char) : Option (Int × List Char) :=
    let (ds, rest) := takeDigits cs.length cs
    if ds = [] then none else some (sign * valueOf ds, rest)
  match skipBlanks cs with
  | '-' :: cs => signed (-1) cs
  | '+' :: cs => signed 1 cs
  | cs => (number? 4 cs).map fun (n, rest) => ((n : Int), rest)

def ofStamp? (cs : List Char) : Option Instant := do
  let (year, cs) ← year? cs
  let (month, cs) ← number? 2 cs
  let (day, cs) ← number? 2 cs
  let cs ← afterStart? ['_'] cs
  let (hour, cs) ← number? 2 cs
  let (minute, cs) ← number? 2 cs
  let (second, cs) ← number? 2 cs
  if cs = [] then Civil.instant? ⟨⟨year, month, day⟩, hour, minute, second, 0⟩ 0 else none

def fraction? (cs : List Char) : Option (Nat × List Char) :=
  match cs with
  | '.' :: cs =>
    let (ds, rest) := takeDigits 9 cs
    if ds = [] then none
    else some (valueOf ds * Nat.pow 10 (9 - ds.length), rest.dropWhile isDigit)
  | _ => some (0, cs)

/-- A zone as seconds ahead of UTC: `Z`, `UTC`, or hours and minutes with a sign. Colons and blanks
may stand between hours and minutes. -/
def zone? (cs : List Char) : Option (Int × List Char) :=
  let offset (sign : Int) (cs : List Char) : Option (Int × List Char) :=
    let (hours, rest) := takeDigits 2 cs
    let (minutes, rest) := takeDigits 2 (rest.dropWhile fun c => c == ':' || isBlank c)
    if hours.length = 2 ∧ minutes.length = 2 ∧ valueOf minutes < 60 then
      some (sign * (valueOf hours * 3600 + valueOf minutes * 60 : Nat), rest)
    else none
  match cs with
  | u :: t :: c :: rest =>
    if Text.sameIgnoringCase [u, t, c] ['U', 'T', 'C'] then some (0, rest)
    else if u = 'Z' ∨ u = 'z' then some (0, t :: c :: rest)
    else if u = '+' then offset 1 (t :: c :: rest)
    else if u = '-' ∨ u = '−' then offset (-1) (t :: c :: rest)
    else none
  | c :: rest => if c = 'Z' ∨ c = 'z' then some (0, rest) else none
  | [] => none

def ofInterchange? (cs : List Char) : Option Instant := do
  let (year, cs) ← year? cs
  let cs ← afterStart? ['-'] (skipBlanks cs)
  let (month, cs) ← number? 2 cs
  let cs ← afterStart? ['-'] (skipBlanks cs)
  let (day, cs) ← number? 2 cs
  let cs ← match cs with
    | c :: cs => if c = 'T' ∨ c = 't' ∨ c = ' ' then some cs else none
    | [] => none
  let (hour, cs) ← number? 2 cs
  let cs ← afterStart? [':'] (skipBlanks cs)
  let (minute, cs) ← number? 2 cs
  let cs ← afterStart? [':'] (skipBlanks cs)
  let (second, cs) ← number? 2 cs
  let (nanos, cs) ← fraction? cs
  let (offset, cs) ← zone? (skipBlanks cs)
  if skipBlanks cs = [] ∧ -86400 < offset ∧ offset < 86400 then
    Civil.instant? ⟨⟨year, month, day⟩, hour, minute, second, nanos⟩ offset
  else none

end Instant
end BackupRotation
