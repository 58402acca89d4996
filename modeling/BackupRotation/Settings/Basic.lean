import BackupRotation.Policy.Text
import BackupRotation.Toml.Basic
/-! The settings of the tool, and reading and changing one of them by its key. Settings whose rotation
section could not be understood keep that section as it was written and keep every backup. -/
namespace BackupRotation

def defaultParallelism : Nat := 4

structure Settings where
  backupDir : String
  policy : Policy
  parallelism : Nat
  unreadable : Option Toml
  deriving Repr

inductive InvalidSetting where
  | directoryEmpty
  | parallelismRange (n : Nat)
  | parallelismText
  | policyText (cause : PolicyError)
  | unknownKey (key : String)
  deriving DecidableEq, Repr

namespace InvalidSetting

def reason : InvalidSetting → String
  | directoryEmpty => "storage.backup_dir must not be empty"
  | parallelismRange n => s!"prune.parallelism must be between 1 and 64 (got {n})"
  | parallelismText => "prune.parallelism must be a positive integer"
  | policyText cause => cause.message
  | unknownKey key => s!"unknown config key: {key}. Use 'keeper config list' to see available keys"

def message (e : InvalidSetting) : String := s!"invalid configuration: {e.reason}"

end InvalidSetting

namespace Settings

instance : Inhabited Settings := ⟨⟨"./backups", .none, defaultParallelism, none⟩⟩

def overrideVariable : String := "KEEPER_CONFIG"

def initial : Settings := default

def isFallback (s : Settings) : Bool := s.unreadable.isSome

def validate (s : Settings) : Except InvalidSetting Unit :=
  if s.backupDir = "" then .error .directoryEmpty
  else if 1 ≤ s.parallelism ∧ s.parallelism ≤ 64 then .ok ()
  else .error (.parallelismRange s.parallelism)

inductive Key where
  | backupDir
  | policy
  | parallelism
  deriving DecidableEq, Repr

namespace Key

def all : List Key := [backupDir, policy, parallelism]

def name : Key → String
  | backupDir => "storage.backup_dir"
  | policy => "retention.policy"
  | parallelism => "prune.parallelism"

def ofName? (name : String) : Option Key := all.find? fun k => k.name == name

theorem ofName?_name (k : Key) : ofName? k.name = some k := by cases k <;> decide

end Key

def text (s : Settings) : Key → String
  | .backupDir => s.backupDir
  | .policy => s.policy.toText
  | .parallelism => String.ofList (Text.digits s.parallelism)

def get? (s : Settings) (key : String) : Option String := (Key.ofName? key).map s.text

/-- Changes a setting without a look at the others. A policy that is understood replaces a section
that was not. -/
def assign (s : Settings) (value : String) : Key → Except InvalidSetting Settings
  | .backupDir => .ok { s with backupDir := value }
  | .policy =>
    match Policy.ofText value with
    | .ok p => .ok { s with policy := p, unreadable := none }
    | .error e => .error (.policyText e)
  | .parallelism =>
    match Text.natural64? value.toList with
    | some n => .ok { s with parallelism := n }
    | none => .error .parallelismText

/-- Changes a setting and checks the result. The change stands even if the result does not pass. -/
def set (s : Settings) (key value : String) : Settings × Except InvalidSetting Unit :=
  match Key.ofName? key with
  | none => (s, .error (.unknownKey key))
  | some k =>
    match s.assign value k with
    | .ok changed => (changed, changed.validate)
    | .error e => (s, .error e)

theorem validateIff (s : Settings) :
    s.validate = .ok () ↔ s.backupDir ≠ "" ∧ 1 ≤ s.parallelism ∧ s.parallelism ≤ 64 := by
  unfold validate
  split
  · simp_all
  · split <;> simp_all

theorem get?_name (s : Settings) (k : Key) : s.get? k.name = some (s.text k) := by
  simp [get?, Key.ofName?_name]

end Settings
end BackupRotation
