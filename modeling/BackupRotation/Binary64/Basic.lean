import BackupRotation.Rounding
/-! Numbers of the binary64 format, as values: an integer of at most 53 bits times a power of two.
Quotients are rounded to the nearest number, a half to the even one. -/
namespace BackupRotation

/-- `finite n m e` is `m * 2^e`, negated when `n`. Numbers are kept in one form: `m` has 53 bits
unless `e` is the least exponent. -/
inductive Binary64 where
  | nan
  | infinite (negative : Bool)
  | finite (negative : Bool) (mantissa : Nat) (exponent : Int)
  deriving DecidableEq, Repr

namespace Binary64

def leastExponent : Int := -1074
def largestExponent : Int := 971

def zero (negative : Bool) : Binary64 := finite negative 0 leastExponent

def scaled (num den : Nat) (e : Int) : Nat × Nat :=
  if e < 0 then (num * Nat.pow 2 e.natAbs, den) else (num, den * Nat.pow 2 e.natAbs)

def exponentOf (num den : Nat) : Int :=
  let e : Int := (num.log2 : Int) - den.log2 - 53
  let (n, d) := scaled num den e
  if Nat.pow 2 53 * d ≤ n then e + 1 else e

def ofRatio (negative : Bool) (num den : Nat) : Binary64 :=
  if num = 0 then zero negative
  else
    let e := max (exponentOf num den) leastExponent
    let (n, d) := scaled num den e
    let m := roundDiv n d
    let (m, e) := if m = Nat.pow 2 53 then (Nat.pow 2 52, e + 1) else (m, e)
    if largestExponent < e then infinite negative else finite negative m e

def roundNat (n : Nat) : Nat :=
  if n < Nat.pow 2 53 then n
  else
    let unit := Nat.pow 2 (n.log2 - 52)
    roundDiv n unit * unit

def sameValue : Binary64 → Binary64 → Bool
  | nan, _ => false
  | _, nan => false
  | finite a m e, finite b n f => m == n && (m == 0 || (a == b && e == f))
  | x, y => x == y

def isIntegral : Binary64 → Bool
  | finite _ m e => 0 ≤ e || m % Nat.pow 2 e.natAbs == 0
  | _ => false

end Binary64
end BackupRotation
