import BackupRotation.Job.Basic
import BackupRotation.Report.Settings
import BackupRotation.Settings.Example
/-! The commands that work on the settings and their file. -/
namespace BackupRotation
namespace Job
open Report (lines)

def location (known : Option String) : Job String :=
  match known with
  | some path => return path
  | none => throw .nowhere

def listSettings (known : Option String) : Job Unit := do
  let s ← orFail (loadSettings known) .settings
  let path ← location known
  print (lines (Report.Settings.overview path s))

def getSetting (known : Option String) (key : String) : Job Unit := do
  let s ← orFail (loadSettings known) .settings
  match s.get? key with
  | some value => print (lines [value])
  | none => throw (.unknownKey key)

def setSetting (known : Option String) (key value : String) : Job Unit := do
  let s ← orFail (loadSettings known) .settings
  let (changed, result) := s.set key value
  ofExcept result .value
  let path ← location known
  orFail (changed.save path) .settings
  print (lines (Report.Settings.changed key value))

def fileExists (path : String) : Job Bool := do
  match ← ofProgram (Program.status path) with
  | .ok _ => return true
  | .error _ => return false

def showLocation (known : Option String) (create : Bool) : Job Unit := do
  let path ← location known
  if ← fileExists path then print (lines [path])
  else if create then
    orFail (Settings.initial.save path) .settings
    print (lines (Report.Settings.fileCreated path))
  else print (lines [path, Report.Settings.fileMissing])

def showExample : Job Unit := print (lines [Settings.exampleText])

end Job
end BackupRotation
