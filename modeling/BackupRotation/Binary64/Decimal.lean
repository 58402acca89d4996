import BackupRotation.Text.Digits
import BackupRotation.Binary64.Basic
/-! Decimal text of binary64 numbers: the nearest number to a decimal, and the decimal with the
fewest digits that reads back. -/
namespace BackupRotation
namespace Binary64
open Text (digits)

/-- The number nearest to `value * 10^exponent`. Decimals far out of range are settled by their
size, so that no power of ten grows beyond bounds. -/
def ofDecimal (negative : Bool) (value : Nat) (exponent : Int) : Binary64 :=
  let magnitude : Int := (digits value).length + exponent
  if value = 0 then zero negative
  else if 400 < magnitude then infinite negative
  else if magnitude < -400 then zero negative
  else if exponent < 0 then ofRatio negative value (Nat.pow 10 exponent.natAbs)
  else ofRatio negative (value * Nat.pow 10 exponent.natAbs) 1

/-- Decimals that read back as a positive number lie between two bounds, given here as quarters of
the last place of the mantissa. The bounds themselves count when the mantissa is even. -/
structure ReadBack where
  low : Nat
  value : Nat
  high : Nat
  exponent : Int
  closed : Bool

def readBack (mantissa : Nat) (exponent : Int) : ReadBack :=
  let gap := if mantissa = Nat.pow 2 52 ∧ leastExponent < exponent then 1 else 2
  ⟨4 * mantissa - gap, 4 * mantissa, 4 * mantissa + 2, exponent - 2, mantissa % 2 == 0⟩

def gridHit? (r : ReadBack) (k : Int) : Option Nat :=
  let (two, half) := if r.exponent < 0 then (1, Nat.pow 2 r.exponent.natAbs) else (Nat.pow 2 r.exponent.natAbs, 1)
  let (up, ten) := if k < 0 then (Nat.pow 10 k.natAbs, 1) else (1, Nat.pow 10 k.natAbs)
  let unit := half * ten
  let value := r.value * two * up
  let low := r.low * two * up
  let high := r.high * two * up
  let d := value / unit
  let inside (n : Nat) : Bool :=
    if r.closed then low ≤ n * unit && n * unit ≤ high else low < n * unit && n * unit < high
  let below := d ≠ 0 && inside d
  let above := inside (d + 1)
  if below && above then
    if 2 * (value - d * unit) < unit then some d else some (d + 1)
  else if below then some d
  else if above then some (d + 1)
  else none

def coarsest (r : ReadBack) : (tries : Nat) → (k : Int) → Nat × Int
  | 0, k => (0, k)
  | tries + 1, k =>
    match gridHit? r k with
    | some d => (d, k)
    | none => coarsest r tries (k - 1)

def shortest (mantissa : Nat) (exponent : Int) : Nat × Int :=
  if mantissa = 0 then (0, 0)
  else
    let start : Int := if exponent < 0 then 17 else (exponent + 53) / 3 + 1
    coarsest (readBack mantissa exponent) 800 start

def positional (value : Nat) (exponent : Int) : List Char :=
  let ds := digits value
  if 0 ≤ exponent then
    if value = 0 then ds else ds ++ List.replicate exponent.natAbs '0'
  else
    let places := exponent.natAbs
    if places < ds.length then ds.take (ds.length - places) ++ '.' :: ds.drop (ds.length - places)
    else '0' :: '.' :: List.replicate (places - ds.length) '0' ++ ds

def text : Binary64 → List Char
  | nan => "nan".toList
  | infinite n => if n then "-inf".toList else "inf".toList
  | finite n m e =>
    let (d, k) := shortest m e
    if n then '-' :: positional d k else positional d k

example : text (ofDecimal false 1 (-1)) = "0.1".toList := by decide +kernel

end Binary64
end BackupRotation
