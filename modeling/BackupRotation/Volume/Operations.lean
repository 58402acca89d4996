import BackupRotation.Volume.Walk
/-! The operations on a volume that paths are given to: reading, listing, and changing single nodes. A
relative path starts `here`. -/
namespace BackupRotation

inductive Status where
  | file (size : Nat) (modified : Instant)
  | directory
  deriving DecidableEq, Repr

namespace Volume

def find (v : Volume) (here : Location) (path : String) : Except FileError (Location × Node) := do
  let l ← v.locate here .node path
  match v.node? l with
  | some n => .ok (l, n)
  | none => .error .noEntry

def status (v : Volume) (here : Location) (path : String) : Except FileError Status := do
  match ← v.find here path with
  | (_, .file data) => .ok (.file data.size data.modified)
  | _ => .ok .directory

def readText (v : Volume) (here : Location) (path : String) : Except FileError String := do
  match ← v.find here path with
  | (_, .file data) =>
    match data.text? with
    | some s => .ok s
    | none => .error .notText
  | _ => .error .isDirectory

def entries (v : Volume) (here : Location) (path : String) : Except FileError (List Octets) := do
  match ← v.find here path with
  | (l, .directory) => .ok (v.names l)
  | _ => .error .notDirectory

def removeFile (v : Volume) (here : Location) (path : String) : Except FileError Volume := do
  let l ← v.locate here .name path
  match v.node? l with
  | none => .error .noEntry
  | some .directory => .error .isDirectory
  | some _ => .ok (v.erase l)

def createDirectory (v : Volume) (here : Location) (path : String) : Except FileError Volume := do
  let l ← v.locateBare here path
  match v.node? l with
  | none => .ok (v.insert l .directory)
  | some _ => .error .alreadyExists

def writeText (v : Volume) (here : Location) (now : Instant) (path text : String) :
    Except FileError Volume := do
  let l ← v.locate here .file path
  match v.node? l with
  | some .directory => .error .isDirectory
  | _ => .ok (v.insert l (.file ⟨.text text, 0, now⟩))

/-- The location of a name that can be taken away or given: links in the name itself are not followed,
and a path that ends in no name has none. -/
def locateName (v : Volume) (here : Location) (path : String) : Except FileError Location := do
  checkPath path
  match (steps path).getLast? with
  | none => .error .busy
  | some last =>
    let l ← v.locateBare here path
    if last = "." ∨ last = ".." then .error .busy else .ok l

def rename (v : Volume) (here : Location) (source target : String) : Except FileError Volume := do
  let l ← v.locateName here source
  let m ← v.locateName here target
  match v.node? l with
  | none => .error .noEntry
  | some .directory => .error .isDirectory
  | some n =>
    if endsInSlash source || endsInSlash target then .error .notDirectory
    else
      match v.node? m with
      | some .directory => .error .isDirectory
      | _ => if l = m then .ok v else .ok ((v.erase l).insert m n)

end Volume
end BackupRotation
