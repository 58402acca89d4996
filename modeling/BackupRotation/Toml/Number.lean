import BackupRotation.Binary64.Decimal
import BackupRotation.Text.Digits
import BackupRotation.Toml.Basic
/-! Reading TOML numbers. Single underscores may stand between digits. Integers have 64 bits;
a float beyond the largest finite one is refused unless it is negative. -/
namespace BackupRotation.Toml.Number
open Text (isDigit valueOf hexDigit?)

def digitsAfter (digit : Char → Bool) : List Char → List Char × List Char
  | '_' :: d :: cs =>
    if digit d then
      let (ds, rest) := digitsAfter digit cs
      (d :: ds, rest)
    else ([], '_' :: d :: cs)
  | c :: cs =>
    if digit c then
      let (ds, rest) := digitsAfter digit cs
      (c :: ds, rest)
    else ([], c :: cs)
  | [] => ([], [])

def digits? (digit : Char → Bool) : List Char → Option (List Char × List Char)
  | c :: cs =>
    if digit c then
      let (ds, rest) := digitsAfter digit cs
      some (c :: ds, rest)
    else none
  | [] => none

def isDigitBelow (radix : Nat) (c : Char) : Bool :=
  match hexDigit? c with
  | some d => d < radix
  | none => false

def integerOf? (n : Int) : Option Toml :=
  if leastInteger ≤ n ∧ n ≤ largestInteger then some (.integer n) else none

def radix? (radix : Nat) (cs : List Char) : Option (Toml × List Char) := do
  let (ds, rest) ← digits? (isDigitBelow radix) cs
  let n := ds.foldl (fun n c => n * radix + (hexDigit? c).getD 0) 0
  some (← integerOf? n, rest)

def whole? : List Char → Option (List Char × List Char)
  | '0' :: cs => some (['0'], cs)
  | cs => digits? isDigit cs

def fraction? : List Char → Option (List Char × List Char)
  | '.' :: cs => digits? isDigit cs
  | cs => some ([], cs)

def sign : List Char → Bool × List Char
  | '-' :: cs => (true, cs)
  | '+' :: cs => (false, cs)
  | cs => (false, cs)

def signed (negative : Bool) (n : Nat) : Int := if negative then -(n : Int) else n

def exponent? : List Char → Option (Option Int × List Char)
  | c :: cs =>
    if c = 'e' ∨ c = 'E' then do
      let (negative, cs) := sign cs
      let (ds, rest) ← digits? isDigit cs
      some (some (signed negative (valueOf ds)), rest)
    else some (none, c :: cs)
  | [] => some (none, [])

def decimal? (negative : Bool) (cs : List Char) : Option (Toml × List Char) := do
  let (ds, rest) ← whole? cs
  let (fs, rest) ← fraction? rest
  let (exponent, rest) ← exponent? rest
  if fs = [] ∧ exponent = none then
    some (← integerOf? (signed negative (valueOf ds)), rest)
  else
    match Binary64.ofDecimal negative (valueOf (ds ++ fs)) (exponent.getD 0 - fs.length) with
    | .infinite false => none
    | x => some (.float x, rest)

def read? (cs : List Char) : Option (Toml × List Char) :=
  match cs with
  | '0' :: 'x' :: cs => radix? 16 cs
  | '0' :: 'o' :: cs => radix? 8 cs
  | '0' :: 'b' :: cs => radix? 2 cs
  | _ =>
    match sign cs with
    | (negative, 'i' :: 'n' :: 'f' :: rest) => some (.float (.infinite negative), rest)
    | (_, 'n' :: 'a' :: 'n' :: rest) => some (.float .nan, rest)
    | (negative, rest) => decimal? negative rest

end BackupRotation.Toml.Number
