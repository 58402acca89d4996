import BackupRotation.Text.Blank
/-! The four grains of a rotation. Windows have a fixed width; the calendar plays no part. -/
namespace BackupRotation

inductive Tier where
  | daily
  | weekly
  | monthly
  | yearly
  deriving DecidableEq, Repr

namespace Tier

def all : List Tier := [daily, weekly, monthly, yearly]

def days : Tier → Nat
  | daily => 1
  | weekly => 7
  | monthly => 30
  | yearly => 365

def widthSeconds (t : Tier) : Nat := t.days * 86400
def widthMillis (t : Tier) : Nat := t.widthSeconds * 1000

def name : Tier → String
  | daily => "daily"
  | weekly => "weekly"
  | monthly => "monthly"
  | yearly => "yearly"

def ofName? (text : List Char) : Option Tier :=
  all.find? fun t => Text.sameIgnoringCase t.name.toList text

theorem mem_all (t : Tier) : t ∈ all := by cases t <;> decide

theorem ofName?_name (t : Tier) : ofName? t.name.toList = some t := by cases t <;> decide

theorem widthPositive (t : Tier) : 0 < t.widthMillis := by cases t <;> decide

end Tier
end BackupRotation
