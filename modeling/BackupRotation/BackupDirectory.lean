import BackupRotation.BackupName
import BackupRotation.Path
import BackupRotation.Program
import BackupRotation.Pruning
/-! A flat directory of backup files. Each backup is known by its bare file name. Directories and files
that accompany backups are not listed. -/
namespace BackupRotation
namespace BackupDirectory

def created (fileName : String) (modified : Instant) : Instant :=
  match BackupName.ofFileName? fileName with
  | some n => n.created
  | none => modified

/-- The backup of an entry if it is one, and what to tell if it is passed over. A link counts as what
it leads to, and one that leads nowhere is passed over like an entry that has gone since. -/
def ofStatus (path fileName : String) :
    Except FileError Status → Except StorageError (Option Artifact) × List Event
  | .ok (.file size modified) =>
    (.ok (some ⟨fileName, UInt64.ofNat size, created fileName modified⟩), [])
  | .ok .directory => (.ok none, [])
  | .error .noEntry => (.ok none, [.vanished fileName])
  | .error e => (.error (.inaccessible path e), [])

def inspect (dir : String) (entry : Octets) : Program (Except StorageError (Option Artifact)) := do
  match entry with
  | .raw bytes =>
    Program.tell (.undecodableSkipped (Octets.raw bytes).quoted)
    return .ok none
  | .text fileName =>
    if BackupName.isSidecar fileName then
      Program.tell (.sidecarSkipped fileName)
      return .ok none
    else
      let path := Path.join dir fileName
      let (result, events) := ofStatus path fileName (← Program.status path)
      Program.tellAll events
      return result

def inspectAll (dir : String) : List Octets → Program (Except StorageError (List Artifact))
  | [] => return .ok []
  | entry :: entries => do
    match ← inspect dir entry with
    | .error e => return .error e
    | .ok found =>
      match ← inspectAll dir entries with
      | .error e => return .error e
      | .ok more => return .ok (found.toList ++ more)

def inOrder (as : List Artifact) : List Artifact := as.mergeSort fun a b => a.id ≤ b.id

def list (dir : String) : Program (Except StorageError (List Artifact)) := do
  match ← Program.entries dir with
  | .error e => return .error (.inaccessible dir e)
  | .ok entries =>
    match ← inspectAll dir entries with
    | .error e => return .error e
    | .ok found =>
      Program.tell (.listed found.length dir)
      return .ok (inOrder found)

/-- Only bare file names are accepted. Two points inside a name are part of it. -/
def isFileName (id : String) : Bool :=
  id ≠ "" && id ≠ "." && id ≠ ".." && id.toList.all fun c => c ≠ '/' && c ≠ '\\' && c ≠ '\x00'

def delete (dir id : String) : Program (Except StorageError Unit) := do
  if isFileName id then
    let path := Path.join dir id
    match ← Program.removeFile path with
    | .ok () =>
      Program.tell (.deleted path)
      return .ok ()
    | .error .noEntry => return .error (.notFound id)
    | .error e => return .error (.inaccessible path e)
  else return .error (.invalidIdentifier id)

def deleteAll (dir : String) : List Artifact → Program (List Outcome)
  | [] => return []
  | a :: as => do
    let result ← delete dir a.id
    let outcomes ← deleteAll dir as
    return Outcome.of a result :: outcomes

def prune (dir : String) (as : List Artifact) : Program PruneReport := do
  let report := PruneReport.ofOutcomes (← deleteAll dir as)
  Program.tellAll report.events
  return report

example : isFileName "dump..sql" = true ∧ isFileName ".." = false := by
  decide +kernel

end BackupDirectory
end BackupRotation
