import BackupRotation.Text.Split
/-! Paths as text. Empty parts and parts `.` after the first count for nothing. -/
namespace BackupRotation
namespace Path
open Text (splitAll splitLast?)

def isAbsolute (p : String) : Bool := p.toList.head? == some '/'

def join (dir name : String) : String :=
  if isAbsolute name || dir.isEmpty then name
  else if dir.toList.getLast? == some '/' then dir ++ name
  else dir ++ "/" ++ name

structure Cut where
  start : List Char
  parts : List (List Char)
  deriving DecidableEq, Repr

def cut (p : List Char) : Cut :=
  match p with
  | '/' :: rest => ⟨['/'], (splitAll '/' rest).reverse⟩
  | ['.'] => ⟨['.'], []⟩
  | '.' :: '/' :: rest => ⟨['.'], (splitAll '/' ('/' :: rest)).reverse⟩
  | _ => ⟨[], (splitAll '/' p).reverse⟩

def isVoid (part : List Char) : Bool := part == [] || part == ['.']

def parts (ps : List (List Char)) : List Char := ['/'].intercalate ps.reverse

def parent? (p : String) : Option String :=
  let c := cut p.toList
  match c.parts.dropWhile isVoid with
  | _ :: rest => some (String.ofList (c.start ++ parts (rest.dropWhile isVoid)))
  | [] => if c.start = ['.'] then some "" else none

def upward : (fuel : Nat) → String → List String
  | 0, _ => []
  | fuel + 1, p =>
    if p = "" then []
    else
      match parent? p with
      | some q => p :: upward fuel q
      | none => [p]

def ancestors (p : String) : List String := upward (p.length + 1) p

def stem (name : List Char) : List Char :=
  match splitLast? '.' name with
  | some ([], _) => name
  | some (before, _) => before
  | none => name

/-- The path with another extension; unchanged if its last part is no name. The old extension goes
first: of a name such as `..x` at the very end only `..` is left, which is no name and gets none. -/
def withExtension (p extension : String) : String :=
  let c := cut p.toList
  match c.parts.dropWhile isVoid with
  | name :: rest =>
    if name = ['.', '.'] then p
    else
      let last :=
        if stem name = ['.'] ∧ c.parts.head? = some name then ['.', '.']
        else stem name ++ '.' :: extension.toList
      String.ofList (c.start ++ parts (last :: rest))
  | [] => p

example : parent? "a//b/./c/" = some "a//b" ∧ parent? "./x" = some "." := by
  decide +kernel

end Path
end BackupRotation
