import BackupRotation.Binary64.Basic
import BackupRotation.Text.Digits
/-! How large a JSON number is taken to be. Its leading digits, as many as stay below `2^64`, and the
power of ten they are to be multiplied by are each rounded to a double, and then their product. -/
namespace BackupRotation
namespace Json
namespace Magnitude

def gather : (n : Nat) → (ds : List Char) → Nat × List Char
  | n, [] => (n, [])
  | n, d :: ds =>
    let m := 10 * n + Text.valueOf [d]
    if m < 18446744073709551616 then gather m ds else (n, d :: ds)

/-- The leading digits and the power of ten of the digits before and after a point. Digits that are
left over before the point count as zeros; after it they count for nothing, but a digit there may
still be gathered after one before the point was not. -/
def leading (whole fraction : List Char) : Nat × Int :=
  let (n, more) := gather 0 whole
  let (n, cut) := gather n fraction
  (n, more.length + cut.length - fraction.length)

def bound : Nat := (Nat.pow 2 54 - 1) * Nat.pow 2 970

def tooLarge (n : Nat) (exponent : Int) : Bool :=
  n != 0 && 0 ≤ exponent &&
    (308 < exponent || bound ≤ Binary64.roundNat n * Binary64.roundNat (Nat.pow 10 exponent.toNat))

example :
    tooLarge 17976931348623157 292 = false ∧ tooLarge 17976931348623158 292 = true := by
  decide +kernel

end Magnitude
end Json
end BackupRotation
