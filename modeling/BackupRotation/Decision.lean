import BackupRotation.Policy.Basic
import BackupRotation.Slot
/-! What a policy decides about a list of backups: a verdict with reasons for each first backup of
a name, and from the verdicts the backups to keep and the backups to delete. -/
namespace BackupRotation

inductive Reason where
  | keepAll
  | recent (rank : Nat)
  | slot (tier : Tier) (index : Nat)
  deriving DecidableEq, Repr

structure Verdict where
  artifact : Artifact
  keep : Bool
  reasons : List Reason
  deriving DecidableEq, Repr

structure Partition where
  keep : List Artifact
  delete : List Artifact
  deriving DecidableEq, Repr, Inhabited

namespace Partition

def keptSize (p : Partition) : Nat := Artifact.totalSize p.keep
def reclaimedSize (p : Partition) : Nat := Artifact.totalSize p.delete
def deletesNothing (p : Partition) : Bool := p.delete.isEmpty

end Partition

namespace Decision

def verdict (a : Artifact) (reasons : List Reason) : Verdict := ⟨a, !reasons.isEmpty, reasons⟩

def recentVerdicts (as : List Artifact) (count : Nat) : List Verdict :=
  let ranked := Artifact.newestFirst as
  as.map fun a =>
    let rank := ranked.idxOf a
    verdict a (if rank < count then [.recent rank] else [])

def tierSlots (as : List Artifact) (p : Policy) (anchor : Instant) : List (Tier × List Slot) :=
  p.enabledTiers.map fun (t, count) => (t, Slot.fill as anchor t count.toNat)

def slotReasons (tiers : List (Tier × List Slot)) (position : Nat) : List Reason :=
  tiers.flatMap fun (t, slots) =>
    (slots.filter fun s => s.position = position).map fun s => .slot t s.index

def rotationVerdicts (as : List Artifact) (p : Policy) : List Verdict :=
  match Artifact.anchor? as with
  | none => []
  | some anchor =>
    let tiers := tierSlots as p anchor
    as.zipIdx.map fun (a, position) => verdict a (slotReasons tiers position)

def explain (as : List Artifact) (p : Policy) : List Verdict :=
  let unique := Artifact.firsts as
  match p with
  | .none => unique.map fun a => verdict a [.keepAll]
  | .simple count => recentVerdicts unique count.toNat
  | .smart .. => rotationVerdicts unique p

def present (p : Policy) (vs : List Verdict) : List Verdict :=
  match p with
  | .simple _ => vs.mergeSort fun v w => w.artifact.created ≤ v.artifact.created
  | _ => vs

def partition (vs : List Verdict) : Partition :=
  ⟨(vs.filter fun v => v.keep).map fun v => v.artifact,
    (vs.filter fun v => !v.keep).map fun v => v.artifact⟩

def evaluate (as : List Artifact) (p : Policy) : Partition := partition (present p (explain as p))

theorem verdictKeepIff (a : Artifact) (rs : List Reason) : (verdict a rs).keep = true ↔ rs ≠ [] := by
  cases rs <;> simp [verdict]

theorem explainArtifacts (as : List Artifact) (p : Policy) :
    (explain as p).map Verdict.artifact = Artifact.firsts as := by
  cases p with
  | none => simp [explain, verdict, Function.comp_def]
  | simple n => simp [explain, recentVerdicts, verdict, Function.comp_def]
  | smart d w m y =>
    simp only [explain, rotationVerdicts]
    cases h : Artifact.firsts as with
    | nil => rfl
    | cons a rest => simp [Artifact.anchor?, verdict, Function.comp_def]

end Decision
end BackupRotation
