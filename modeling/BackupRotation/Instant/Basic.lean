import BackupRotation.Calendar
/-! Points in time at nanosecond precision, in UTC. A leap second is the sixtieth second of a
minute written as second 59 with a whole second or more of nanoseconds. -/
namespace BackupRotation

namespace Instant

def firstSecond : Int := -8334601228800
def lastSecond : Int := 8210266876799

/-- What a pair of a second since 1970 and nanoseconds must satisfy to be a point in time: the years
run from -262143 to 262142, and only the last second of a minute may be followed by a leap second. -/
def Admissible (seconds : Int) (nanos : Nat) : Prop :=
  firstSecond ≤ seconds ∧ seconds ≤ lastSecond ∧
    nanos < 2000000000 ∧ (1000000000 ≤ nanos → seconds % 60 = 59)
instance (s n) : Decidable (Admissible s n) := by unfold Admissible; infer_instance

end Instant

structure Instant where
  seconds : Int
  nanos : Nat
  admissible : Instant.Admissible seconds nanos
  deriving DecidableEq, Repr

namespace Instant

def ofUnix? (seconds : Int) (nanos : Nat) : Option Instant :=
  if h : Admissible seconds nanos then some ⟨seconds, nanos, h⟩ else none

instance : Inhabited Instant := ⟨⟨0, 0, by decide⟩⟩

def IsLeap (t : Instant) : Prop := 1000000000 ≤ t.nanos
instance (t : Instant) : Decidable t.IsLeap := by unfold IsLeap; infer_instance

/-- A leap second lies after all of its second and before the next one. -/
def Before (a b : Instant) : Prop := a.seconds < b.seconds ∨ (a.seconds = b.seconds ∧ a.nanos < b.nanos)
instance : LT Instant := ⟨Before⟩
instance (a b : Instant) : Decidable (a < b) := by
  show Decidable (Before a b); unfold Before; infer_instance
instance : LE Instant := ⟨fun a b => ¬ b < a⟩
instance (a b : Instant) : Decidable (a ≤ b) := by
  show Decidable (¬ b < a); infer_instance

def secondOfDay (t : Instant) : Int := t.seconds % 86400

/-- Nanoseconds from `earlier` to `later`. A leap second that lies between the two times of day, as
times of one day, counts as a second of its own; other leap seconds do not. -/
def elapsed (earlier later : Instant) : Int :=
  let leap : Int :=
    if earlier.secondOfDay < later.secondOfDay ∧ earlier.IsLeap then 1
    else if later.secondOfDay < earlier.secondOfDay ∧ later.IsLeap then -1
    else 0
  (later.seconds - earlier.seconds + leap) * 1000000000 + ((later.nanos : Int) - earlier.nanos)

def elapsedMillis (earlier later : Instant) : Int := (elapsed earlier later).tdiv 1000000

def latest (a b : Instant) : Instant := if a < b then b else a

theorem lt_irrefl (a : Instant) : ¬ a < a := by
  show ¬ Before a a; unfold Before; omega

theorem lt_trans {a b c : Instant} (h : a < b) (k : b < c) : a < c := by
  change Before a b at h; change Before b c at k; show Before a c
  unfold Before at *; omega

theorem le_total (a b : Instant) : a ≤ b ∨ b ≤ a := by
  show ¬ Before b a ∨ ¬ Before a b; unfold Before; omega

theorem le_trans {a b c : Instant} (h : a ≤ b) (k : b ≤ c) : a ≤ c := by
  change ¬ Before b a at h; change ¬ Before c b at k; show ¬ Before c a
  unfold Before at *; omega

theorem le_antisymm {a b : Instant} (h : a ≤ b) (k : b ≤ a) : a = b := by
  change ¬ Before b a at h; change ¬ Before a b at k
  have hs : a.seconds = b.seconds := by unfold Before at *; omega
  have hn : a.nanos = b.nanos := by unfold Before at *; omega
  cases a; cases b; simp_all

theorem elapsed_self (a : Instant) : elapsed a a = 0 := by
  simp [elapsed]

end Instant
end BackupRotation
