import BackupRotation.Binary64.Decimal
import BackupRotation.Toml.Basic
import BackupRotation.Toml.Plain
/-! Writing TOML text. Tables and arrays of tables get headers, also where they stand in one another;
inside any other array they are written inline. An array of two items or more has a line for each. -/
namespace BackupRotation.Toml
namespace Write
open Text (signedDigits)

def key (k : String) : List Char := Plain.key k.toList

def float (x : Binary64) : List Char := if x.isIntegral then x.text ++ ['.', '0'] else x.text

def hasElements : Toml → Bool
  | .array items => !items.isEmpty && items.all isTable
  | _ => false

def hasHeader (v : Toml) : Bool := isTable v || hasElements v

mutual
def value : Toml → List Char
  | .string s => Plain.text s.toList
  | .integer n => signedDigits n
  | .float x => float x
  | .boolean b => if b then "true".toList else "false".toList
  | .moment m => m.text
  | .array [] => ['[', ']']
  | .array [v] => '[' :: value v ++ [']']
  | .array items => '[' :: itemLines items ++ ['\n', ']']
  | .table [] => ['{', '}']
  | .table entries => '{' :: ' ' :: pairs entries
def itemLines : List Toml → List Char
  | [] => []
  | v :: vs => "\n    ".toList ++ value v ++ ',' :: itemLines vs
def pairs : List (String × Toml) → List Char
  | [] => []
  | [(k, v)] => key k ++ " = ".toList ++ value v ++ [' ', '}']
  | (k, v) :: es => key k ++ " = ".toList ++ value v ++ ',' :: ' ' :: pairs es
end

def assignments (entries : List (String × Toml)) : List Char :=
  (entries.filter fun e => !hasHeader e.2).flatMap fun (k, v) =>
    key k ++ " = ".toList ++ value v ++ ['\n']

/-- A table without lines of its own shows in the headers below it, unless it is empty. -/
def isHidden (entries : List (String × Toml)) : Bool :=
  !entries.isEmpty && entries.all fun e => hasHeader e.2

def tableHeader (path : List Char) : List Char := '[' :: path ++ ']' :: ['\n']
def elementHeader (path : List Char) : List Char := '[' :: '[' :: path ++ ']' :: ']' :: ['\n']

mutual
def sections (path : List Char) : List (String × Toml) → List (List Char)
  | [] => []
  | (k, .table entries) :: es =>
    let path' := path ++ key k
    let own := if isHidden entries then [] else [tableHeader path' ++ assignments entries]
    own ++ sections (path' ++ ['.']) entries ++ sections path es
  | (k, .array items) :: es =>
    (if hasElements (.array items) then elements (path ++ key k) items else []) ++ sections path es
  | _ :: es => sections path es
def elements (path : List Char) : List Toml → List (List Char)
  | [] => []
  | .table entries :: ts =>
    (elementHeader path ++ assignments entries) ::
      (sections (path ++ ['.']) entries ++ elements path ts)
  | _ :: ts => elements path ts
end

def join : List (List Char) → List Char
  | [] => []
  | [s] => s
  | s :: more => s ++ '\n' :: join more

end Write

def write (t : Table) : List Char :=
  let own := Write.assignments t
  Write.join ((if own = [] then [] else [own]) ++ Write.sections [] t)

def toText (t : Table) : String := String.ofList (write t)

end BackupRotation.Toml
