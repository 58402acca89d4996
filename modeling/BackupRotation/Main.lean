import Std.Time.DateTime.Timestamp
import BackupRotation.CommandLine
/-! The program itself: requests are put to the machine. -/
namespace BackupRotation.Machine

def fileError (e : IO.Error) : FileError :=
  match e with
  | .noFileOrDirectory .. => .noEntry
  | .resourceBusy 16 _ => .busy
  | .alreadyExists _ 17 _ => .alreadyExists
  | .inappropriateType _ 20 _ => .notDirectory
  | .inappropriateType _ 21 _ => .isDirectory
  | .invalidArgument _ 36 _ => .nameTooLong
  | .invalidArgument _ 40 _ => .linkLoop
  | e => .other (toString e)

def attempt {α : Type} (action : IO α) : IO (Except FileError α) := do
  match ← action.toBaseIO with
  | .ok a => return .ok a
  | .error e => return .error (fileError e)

def readText (path : String) : IO (Except FileError String) := do
  match ← attempt (IO.FS.readBinFile path) with
  | .ok bytes =>
    match String.fromUTF8? bytes with
    | some s => return .ok s
    | none => return .error .notText
  | .error e => return .error e

def entries (path : String) : IO (Except FileError (List Octets)) :=
  attempt do
    let found ← (IO.FS.DirEntry.mk path "").root.readDir
    return found.toList.map fun e => Octets.text e.fileName

def instant (t : IO.FS.SystemTime) : Instant :=
  (Instant.ofUnix? t.sec t.nsec.toNat).getD default

def status (path : String) : IO (Except FileError Status) :=
  attempt do
    let m ← (IO.FS.DirEntry.mk path "").root.metadata
    match m.type with
    | .dir => return .directory
    | _ => return .file m.byteSize.toNat (instant m.modified)

def now : IO Instant := do
  let t ← Std.Time.Timestamp.now
  return (Instant.ofUnix? t.toSecondsSinceUnixEpoch.toInt 0).getD default

def print (text : String) : IO Unit := do
  let out ← IO.getStdout
  out.putStr text
  out.flush

def tell (e : Event) : IO Unit :=
  match e.severity with
  | .warn => IO.eprintln e.line
  | _ => return ()

def answer : (r : Request) → IO r.Answer
  | .readText path => readText path
  | .entries path => entries path
  | .status path => status path
  | .removeFile path => attempt (IO.FS.removeFile path)
  | .createDirectory path => attempt (IO.FS.createDir path)
  | .writeText path text => attempt (IO.FS.writeFile path text)
  | .rename source target => attempt (IO.FS.rename source target)
  | .print text => print text
  | .readLine => do attempt (← IO.getStdin).getLine
  | .now => now
  | .tell e => tell e

def perform {α : Type} : Program α → IO α
  | .done a => return a
  | .ask r next => do perform (next (← answer r))

def environment (name : String) : IO (Option String) := IO.getEnv name

def surroundings : IO Settings.Surroundings := do
  let file ← environment Settings.overrideVariable
  let settingsHome ← environment "XDG_CONFIG_HOME"
  let home ← environment "HOME"
  return ⟨file, settingsHome, home.filter fun h => h ≠ ""⟩

end BackupRotation.Machine

open BackupRotation in
def main (args : List String) : IO UInt32 := do
  let location := Settings.location? (← Machine.surroundings)
  let exit ← Machine.perform (CommandLine.run location args)
  match exit.complaint with
  | [] => if exit.status = 2 then IO.eprintln "usage: keeper <list|plan|prune|config> [OPTIONS]"
  | first :: causes =>
    IO.eprintln ("Error: " ++ first)
    for cause in causes do
      IO.eprintln ("  caused by: " ++ cause)
  return UInt32.ofNat exit.status
