import BackupRotation.Settings.Basic
import BackupRotation.Settings.Rotation
import BackupRotation.Toml.Read
import BackupRotation.Toml.Write
/-! Settings as a TOML document. A document that is not TOML or has a section of the wrong shape is
refused, except that the rotation section may be anything. -/
namespace BackupRotation
namespace Settings

/-- The field of a section that has one field: the value under its name, or the only item of an array.
Other keys are not read; a field that is left out is its default. -/
def onlyField? {α : Type} (name : String) (field : Toml → Option α) (initial : α) :
    Option Toml → Option α
  | none => some initial
  | some (.table t) =>
    match Toml.Table.get? t name with
    | some v => field v
    | none => some initial
  | some (.array []) => some initial
  | some (.array [v]) => field v
  | some _ => none

def directory? : Toml → Option String
  | .string s => some s
  | .moment m => some (String.ofList m.text)
  | _ => none

def natural? : Toml → Option Nat
  | .integer n => if 0 ≤ n then some n.toNat else none
  | _ => none

def rotationOf : Option Toml → Policy × Option Toml × List Event
  | none => (.none, none, [])
  | some v =>
    match Rotation.read v with
    | .ok p => (p, none, [])
    | .error e => (.none, some v, [e])

def ofTable? (t : Toml.Table) : Option (Settings × List Event) := do
  let backupDir ← onlyField? "backup_dir" directory? initial.backupDir (t.get? "storage")
  let parallelism ← onlyField? "parallelism" natural? initial.parallelism (t.get? "prune")
  let (policy, unreadable, events) := rotationOf (t.get? "retention")
  some (⟨backupDir, policy, parallelism, unreadable⟩, events)

def ofText? (s : String) : Option (Settings × List Event) := do ofTable? (← Toml.ofText? s)

/-- The root table of the settings. A section that was not understood goes back as it was; a number
beyond the integers of TOML cannot be written. -/
def toTable? (s : Settings) : Option Toml.Table :=
  if (s.parallelism : Int) ≤ Toml.largestInteger then
    some [("prune", .table [("parallelism", .integer s.parallelism)]),
      ("retention", s.unreadable.getD (Rotation.ofPolicy s.policy)),
      ("storage", .table [("backup_dir", .string s.backupDir)])]
  else none

def toText? (s : Settings) : Option String := s.toTable?.map Toml.toText

def sameUnreadable : Option Toml → Option Toml → Bool
  | none, none => true
  | some v, some w => v.same w
  | _, _ => false

/-- Equality of settings. A section that was not understood and holds a float that is no number
differs from itself. -/
def same (s t : Settings) : Bool :=
  s.backupDir == t.backupDir && s.policy == t.policy && s.parallelism == t.parallelism &&
    sameUnreadable s.unreadable t.unreadable

end Settings
end BackupRotation
