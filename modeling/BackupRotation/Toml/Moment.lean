import BackupRotation.Calendar
import BackupRotation.Text.Digits
import BackupRotation.Text.Split
/-! Dates and times of day as TOML has them: with or without an offset from UTC, and each part
alone. They name no point in time unless they have an offset, and nothing here converts them. -/
namespace BackupRotation.Toml
open Text (digits padded takeDigits valueOf isDigit)

structure Clock where
  hour : Nat
  minute : Nat
  second : Nat
  nanos : Nat
  deriving DecidableEq, Repr

inductive Offset where
  | utc
  | minutes (ahead : Int)
  deriving DecidableEq, Repr

inductive Moment where
  | offsetDateTime (date : Date) (clock : Clock) (offset : Offset)
  | localDateTime (date : Date) (clock : Clock)
  | localDate (date : Date)
  | localTime (clock : Clock)
  deriving DecidableEq, Repr

namespace Moment

def dateText (d : Date) : List Char :=
  padded 4 d.year.toNat ++ '-' :: padded 2 d.month ++ '-' :: padded 2 d.day

def fractionText (nanos : Nat) : List Char :=
  if nanos = 0 then []
  else '.' :: ((padded 9 nanos).reverse.dropWhile fun c => c == '0').reverse

def clockText (c : Clock) : List Char :=
  padded 2 c.hour ++ ':' :: padded 2 c.minute ++ ':' :: padded 2 c.second ++ fractionText c.nanos

def offsetText : Offset → List Char
  | .utc => ['Z']
  | .minutes m =>
    (if m < 0 then '-' else '+') :: padded 2 (m.natAbs / 60) ++ ':' :: padded 2 (m.natAbs % 60)

def text : Moment → List Char
  | offsetDateTime d c o => dateText d ++ 'T' :: clockText c ++ offsetText o
  | localDateTime d c => dateText d ++ 'T' :: clockText c
  | localDate d => dateText d
  | localTime c => clockText c

def field? (width : Nat) (cs : List Char) : Option (Nat × List Char) :=
  let (ds, rest) := takeDigits width cs
  if ds.length = width then some (valueOf ds, rest) else none

def date? (cs : List Char) : Option (Date × List Char) := do
  let (year, cs) ← field? 4 cs
  let (month, cs) ← field? 2 (← Text.afterStart? ['-'] cs)
  let (day, cs) ← field? 2 (← Text.afterStart? ['-'] cs)
  let date : Date := ⟨year, month, day⟩
  if date.Valid then some (date, cs) else none

def fraction? : List Char → Option (Nat × List Char)
  | '.' :: cs =>
    let (ds, rest) := takeDigits 9 cs
    if ds = [] then none
    else some (valueOf ds * Nat.pow 10 (9 - ds.length), rest.dropWhile isDigit)
  | cs => some (0, cs)

def hourMinute? (cs : List Char) : Option (Nat × Nat × List Char) := do
  let (hour, cs) ← field? 2 cs
  let (minute, cs) ← field? 2 (← Text.afterStart? [':'] cs)
  if hour < 24 ∧ minute < 60 then some (hour, minute, cs) else none

def clock? (cs : List Char) : Option (Clock × List Char) := do
  let (hour, minute, cs) ← hourMinute? cs
  let (second, cs) ← field? 2 (← Text.afterStart? [':'] cs)
  let (nanos, cs) ← fraction? cs
  if second ≤ 60 then some (⟨hour, minute, second, nanos⟩, cs) else none

def offset? : List Char → Option (Offset × List Char)
  | 'Z' :: cs => some (.utc, cs)
  | 'z' :: cs => some (.utc, cs)
  | '+' :: cs => do
    let (hour, minute, cs) ← hourMinute? cs
    some (.minutes (hour * 60 + minute : Nat), cs)
  | '-' :: cs => do
    let (hour, minute, cs) ← hourMinute? cs
    some (.minutes (-(hour * 60 + minute : Nat)), cs)
  | _ => none

def isSeparator (c : Char) : Bool := c == 'T' || c == 't' || c == ' '

def clockAfter? : List Char → Option (Clock × List Char)
  | c :: cs => if isSeparator c then clock? cs else none
  | [] => none

def read? (cs : List Char) : Option (Moment × List Char) :=
  match date? cs with
  | none => (clock? cs).map fun (clock, rest) => (localTime clock, rest)
  | some (date, cs) =>
    match clockAfter? cs with
    | none => some (localDate date, cs)
    | some (clock, cs) =>
      match offset? cs with
      | none => some (localDateTime date clock, cs)
      | some (offset, cs) => some (offsetDateTime date clock offset, cs)

def ofText? (s : String) : Option Moment :=
  match read? s.toList with
  | some (m, []) => some m
  | _ => none

example : (read? "1979-05-27 ".toList).map Prod.snd = some [' '] := by decide

end Moment
end BackupRotation.Toml
