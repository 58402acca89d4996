import BackupRotation.BackupDirectory
import BackupRotation.Policy.Text
import BackupRotation.Settings.File
/-! What a command is: a program that may stop at a failure. A failure says at which step, and why. A
command works on a directory by a policy; flags go before the settings. -/
namespace BackupRotation

inductive Failure where
  | loading (cause : SettingsError)
  | settings (cause : SettingsError)
  | nowhere
  | policyFlag (text : String) (cause : PolicyError)
  | listing (dir : String) (cause : StorageError)
  | confirmation (cause : FileError)
  | value (cause : InvalidSetting)
  | unknownKey (key : String)
  deriving DecidableEq, Repr

namespace Failure

def chain : Failure → List String
  | loading cause => "Failed to load configuration" :: cause.chain
  | settings cause => cause.chain
  | nowhere => ["Could not determine config file path", SettingsError.noDirectory.message]
  | policyFlag text cause => [s!"Invalid --policy '{text}'", cause.message]
  | listing dir cause => s!"Failed to list backups in {dir}" :: cause.chain
  | confirmation cause => ["Failed to read confirmation", cause.message]
  | value cause => ["Invalid configuration value", cause.message]
  | unknownKey key =>
    let keys := ", ".intercalate (Settings.Key.all.map Settings.Key.name)
    [s!"Unknown config key: {key}. Available keys: {keys}"]

end Failure

abbrev Job := ExceptT Failure Program

namespace Job

def orFail {ε α : Type} (p : Program (Except ε α)) (failure : ε → Failure) : Job α :=
  ExceptT.mk do
    match ← p with
    | .ok a => return .ok a
    | .error e => return .error (failure e)

def ofExcept {ε α : Type} (r : Except ε α) (failure : ε → Failure) : Job α :=
  orFail (pure r) failure

def ofProgram {α : Type} (p : Program α) : Job α := ExceptT.lift p

def print (s : String) : Job Unit := ofProgram (Program.print s)

def loadSettings : Option String → Program (Except SettingsError Settings)
  | some path => Settings.load path
  | none => return .error .noDirectory

end Job

structure Target where
  dir : String
  policy : Policy
  settings : Settings

namespace Target

def policyOf (s : Settings) : Option String → Job Policy
  | some text => Job.ofExcept (Policy.ofText text) (.policyFlag text)
  | none => return s.policy

def resolve (location dir policy : Option String) : Job Target := do
  let s ← Job.orFail (Job.loadSettings location) .loading
  let p ← policyOf s policy
  return ⟨dir.getD s.backupDir, p, s⟩

def artifacts (t : Target) : Job (List Artifact) :=
  Job.orFail (BackupDirectory.list t.dir) (.listing t.dir)

end Target

end BackupRotation
