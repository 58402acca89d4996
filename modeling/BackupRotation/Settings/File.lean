import BackupRotation.Path
import BackupRotation.Program
import BackupRotation.Settings.Document
/-! The settings file: where it lies, reading it, and writing it so that it is never half written. -/
namespace BackupRotation

inductive SettingsError where
  | noDirectory
  | inaccessible (path : String) (cause : FileError)
  | malformed (path : String)
  | unwritable
  | invalid (cause : InvalidSetting)
  deriving DecidableEq, Repr

namespace SettingsError

def message : SettingsError → String
  | noDirectory => "could not determine a configuration directory"
  | inaccessible path cause => s!"failed to access {path}: {cause.message}"
  | malformed path => s!"failed to parse {path}"
  | unwritable => "failed to serialize configuration"
  | invalid cause => cause.message

def chain (e : SettingsError) : List String :=
  match e with
  | inaccessible _ cause => [e.message, cause.message]
  | _ => [e.message]

end SettingsError

namespace Settings

structure Surroundings where
  file : Option String
  settingsHome : Option String
  home : Option String
  deriving DecidableEq, Repr

/-- The path of the settings file. A directory of settings counts only if its path is absolute. -/
def location? (s : Surroundings) : Option String :=
  let standard := s.home.map fun h => Path.join h ".config"
  let directory := (s.settingsHome.filter Path.isAbsolute).or standard
  s.file.or (directory.map fun d => Path.join (Path.join d "keeper") "config.toml")

def load (path : String) : Program (Except SettingsError Settings) := do
  match ← Program.readText path with
  | .error .noEntry => return .ok initial
  | .error e => return .error (.inaccessible path e)
  | .ok text =>
    match ofText? text with
    | none => return .error (.malformed path)
    | some (s, events) =>
      Program.tellAll events
      match s.validate with
      | .ok () => return .ok s
      | .error e => return .error (.invalid e)

def isDirectory (path : String) : Program Bool := do
  match ← Program.status path with
  | .ok .directory => return true
  | _ => return false

def createDirectory (path : String) : Program (Except FileError Unit) := do
  match ← Program.createDirectory path with
  | .ok () => return .ok ()
  | .error e => if ← isDirectory path then return .ok () else return .error e

def createDirectories : List String → Program (Except FileError Unit)
  | [] => return .ok ()
  | path :: above => do
    match ← createDirectory path with
    | .error .noEntry =>
      match ← createDirectories above with
      | .ok () => createDirectory path
      | .error e => return .error e
    | result => return result

def createParent (path : String) : Program (Except FileError Unit) :=
  match Path.parent? path with
  | some parent => createDirectories (Path.ancestors parent)
  | none => return .ok ()

def temporary (path : String) : String := Path.withExtension path "toml.tmp"

def replaceText (path text : String) : Program (Except FileError Unit) := do
  match ← Program.writeText (temporary path) text with
  | .error e => return .error e
  | .ok () => Program.rename (temporary path) path

def save (s : Settings) (path : String) : Program (Except SettingsError Unit) := do
  match ← createParent path with
  | .error e => return .error (.inaccessible path e)
  | .ok () =>
    match s.toText? with
    | none => return .error .unwritable
    | some text =>
      match ← replaceText path text with
      | .error e => return .error (.inaccessible path e)
      | .ok () => return .ok ()

end Settings
end BackupRotation
