import BackupRotation.FileError
import BackupRotation.Text.Split
import BackupRotation.Volume.Basic
/-! Where a path leads. Each part but the last must lead to a directory; symbolic links on the way are
followed, at most 40 of them; nothing need lie where the last part leads. -/
namespace BackupRotation
namespace Volume

def linkLimit : Nat := 40
def nameLimit : Nat := 255
def pathLimit : Nat := 4095

/-- What a path is walked for: the node it leads to, its last name itself, be it a link or not, or a
place where a file can be written. -/
inductive Aim where
  | node
  | name
  | file
  deriving DecidableEq, Repr

def steps (path : String) : List String :=
  ((Text.splitAll '/' path.toList).filter fun part => part ≠ []).map String.ofList

def endsInSlash (path : String) : Bool := path.toList.getLast? == some '/'

/-- The steps of a path. A slash at its end leaves an empty step there, which asks for a directory. -/
def route (path : String) : List String :=
  if endsInSlash path then steps path ++ [""] else steps path

def origin (here : Location) (path : String) : Location :=
  if path.toList.head? = some '/' then [] else here

/-- Walks along `steps`. No file can be written where the last name has a slash behind it. `jump` goes
on behind a link. -/
def walkWith (v : Volume) (aim : Aim)
    (jump : Location → List String → Except FileError Location) :
    Location → List String → Except FileError Location
  | here, [] => .ok here
  | here, step :: rest =>
    match v.node? here with
    | none => .error .noEntry
    | some (.file _) => .error .notDirectory
    | some (.link _) => .error .notDirectory
    | some .directory =>
      if step = "" ∨ step = "." then walkWith v aim jump here rest
      else if step = ".." then walkWith v aim jump here.dropLast rest
      else if rest = [""] ∧ aim = .file then .error .isDirectory
      else if nameLimit < step.utf8ByteSize then .error .nameTooLong
      else
        let next := here ++ [.text step]
        match v.node? next with
        | some (.link target) =>
          if rest = [] ∧ aim = .name then .ok next
          else jump (origin here target) (route target ++ rest)
        | _ => walkWith v aim jump next rest

def walk (v : Volume) (aim : Aim) :
    (links : Nat) → Location → List String → Except FileError Location
  | 0 => walkWith v aim fun _ _ => .error .linkLoop
  | links + 1 => walkWith v aim (walk v aim links)

def checkPath (path : String) : Except FileError Unit :=
  if '\x00' ∈ path.toList then .error .nullInPath
  else if path = "" then .error .noEntry
  else if pathLimit < path.utf8ByteSize then .error .nameTooLong
  else .ok ()

def locate (v : Volume) (here : Location) (aim : Aim) (path : String) :
    Except FileError Location := do
  checkPath path
  walk v aim linkLimit (origin here path) (route path)

def locateBare (v : Volume) (here : Location) (path : String) : Except FileError Location := do
  checkPath path
  walk v .name linkLimit (origin here path) (steps path)

end Volume
end BackupRotation
