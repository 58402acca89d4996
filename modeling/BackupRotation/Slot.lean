import BackupRotation.Artifact
import BackupRotation.Tier
/-! Windows of a tier behind an anchor. Window `i` of width `w` holds the ages from `i * w` up to
but not including `(i + 1) * w`; the newest backup in a window wins it, the earlier in the list of
two equally new ones. Windows without a backup have no slot. -/
namespace BackupRotation

structure Slot where
  index : Nat
  position : Nat
  deriving DecidableEq, Repr

def Tier.window? (t : Tier) (anchor created : Instant) : Option Nat :=
  let age := Instant.elapsedMillis created anchor
  if age < 0 then none else some (age.toNat / t.widthMillis)

namespace Slot

structure Candidate where
  index : Nat
  position : Nat
  created : Instant
  deriving DecidableEq, Repr

def candidate? (anchor : Instant) (t : Tier) (count : Nat) (a : Artifact) (position : Nat) :
    Option Candidate :=
  match t.window? anchor a.created with
  | some index => if index < count then some ⟨index, position, a.created⟩ else none
  | none => none

def candidates (as : List Artifact) (anchor : Instant) (t : Tier) (count : Nat) : List Candidate :=
  as.zipIdx.filterMap fun (a, position) => candidate? anchor t count a position

def newer (a b : Candidate) : Candidate := if a.created < b.created then b else a

def winner? (cs : List Candidate) (index : Nat) : Option Candidate :=
  match cs.filter fun c => c.index = index with
  | [] => none
  | c :: rest => some (rest.foldl newer c)

def insertIndex (i : Nat) : List Nat → List Nat
  | [] => [i]
  | j :: js => if i < j then i :: j :: js else if i = j then j :: js else j :: insertIndex i js

def indices (cs : List Candidate) : List Nat := cs.foldr (fun c is => insertIndex c.index is) []

def fill (as : List Artifact) (anchor : Instant) (t : Tier) (count : Nat) : List Slot :=
  let cs := candidates as anchor t count
  (indices cs).filterMap fun i => (winner? cs i).map fun c => ⟨i, c.position⟩

theorem mem_insertIndex {i j : Nat} {js : List Nat} : j ∈ insertIndex i js ↔ j = i ∨ j ∈ js := by
  induction js with
  | nil => simp [insertIndex]
  | cons k ks ih =>
    simp only [insertIndex]
    split
    · simp
    · split
      · rename_i h; subst h; simp
      · simp [ih]; constructor <;> rintro (h | h | h) <;> simp [h]

theorem mem_indices {cs : List Candidate} {i : Nat} : i ∈ indices cs ↔ ∃ c ∈ cs, c.index = i := by
  induction cs with
  | nil => simp [indices]
  | cons c cs ih =>
    have : indices (c :: cs) = insertIndex c.index (indices cs) := rfl
    rw [this, mem_insertIndex, ih]
    simp [eq_comm]

end Slot
end BackupRotation
