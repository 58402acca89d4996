import BackupRotation.Toml.Basic
/-! The table that the lines of a TOML text build up. Tables remember how they came about, since a
table may be written out once only: a header may still open a table that only headers below it have
implied, and dotted keys may only add to tables that dotted keys of the same section began. -/
namespace BackupRotation.Toml

inductive Origin where
  | written
  | implied
  | dotted
  deriving DecidableEq, Repr

inductive Outline where
  | value (v : Toml)
  | table (origin : Origin) (entries : List (String × Outline))
  | elements (tables : List (List (String × Outline)))
  deriving Inhabited

abbrev Entries := List (String × Outline)

namespace Outline

def find? (key : String) (es : Entries) : Option Outline := (es.find? fun e => e.1 == key).map Prod.snd

def replace (key : String) (t : Outline) (es : Entries) : Entries :=
  es.map fun e => if e.1 == key then (key, t) else e

def changeLast (change : Entries → Option Entries) : List Entries → Option (List Entries)
  | [] => none
  | [es] => (change es).map fun es => [es]
  | es :: more => (changeLast change more).map fun more => es :: more

/-- Changes the table at a path. Missing tables on the way are implied; of several tables of one
name the last is meant. -/
def within (change : Entries → Option Entries) : (path : List String) → Entries → Option Entries
  | [], es => change es
  | key :: path, es =>
    match find? key es with
    | none => (within change path []).map fun sub => es ++ [(key, .table .implied sub)]
    | some (.table origin sub) =>
      (within change path sub).map fun sub => replace key (.table origin sub) es
    | some (.elements tables) =>
      (changeLast (within change path) tables).map fun tables => replace key (.elements tables) es
    | some (.value _) => none

/-- Whether a dotted key may pass through a table on the way to its last part. The table that holds
the last part must have begun with a dotted key. -/
def admits (origin : Origin) (path : List String) : Bool :=
  match origin with
  | .dotted => true
  | .implied => 2 ≤ path.length
  | .written => false

def assign (v : Toml) : (path : List String) → Entries → Option Entries
  | [], _ => none
  | [key], es =>
    match find? key es with
    | none => some (es ++ [(key, .value v)])
    | some _ => none
  | key :: path, es =>
    match find? key es with
    | none => (assign v path []).map fun sub => es ++ [(key, .table .dotted sub)]
    | some (.table origin sub) =>
      if admits origin path then
        (assign v path sub).map fun sub => replace key (.table origin sub) es
      else none
    | some (.elements tables) =>
      if 2 ≤ path.length then
        (changeLast (assign v path) tables).map fun tables => replace key (.elements tables) es
      else none
    | some (.value _) => none

def assignAll (es : Entries) : List (List String × Toml) → Option Entries
  | [] => some es
  | (path, v) :: more => do assignAll (← assign v path es) more

mutual
def finish : Outline → Toml
  | value v => v
  | table _ es => .table (finishEntries es)
  | elements tables => .array (finishAll tables)
def finishEntries : List (String × Outline) → List (String × Toml)
  | [] => []
  | (key, t) :: es => (key, finish t) :: finishEntries es
def finishAll : List (List (String × Outline)) → List Toml
  | [] => []
  | es :: more => .table (finishEntries es) :: finishAll more
end

end Outline

inductive Header where
  | table (path : List String)
  | element (path : List String)
  deriving DecidableEq, Repr

structure Section where
  header : Header
  assignments : List (List String × Toml)

namespace Section
open Outline

def path : Header → List String
  | .table path => path
  | .element path => path

/-- Opens the table of a header among the entries of the table around it and fills it. A table that
was implied so far moves to the end. -/
def open? (s : Section) (key : String) (es : Entries) : Option Entries :=
  match s.header, find? key es with
  | .table _, none => do
    let sub ← assignAll [] s.assignments
    some (es ++ [(key, .table .written sub)])
  | .table _, some (.table .implied sub) => do
    let sub ← assignAll sub s.assignments
    some ((es.filter fun e => e.1 != key) ++ [(key, .table .written sub)])
  | .element _, none => do
    let sub ← assignAll [] s.assignments
    some (es ++ [(key, .elements [sub])])
  | .element _, some (.elements tables) => do
    let sub ← assignAll [] s.assignments
    some (replace key (.elements (tables ++ [sub])) es)
  | _, _ => none

def place? (s : Section) (root : Entries) : Option Entries :=
  match (path s.header).getLast? with
  | none => none
  | some key => within (s.open? key) (path s.header).dropLast root

def placeAll? (root : Entries) : List Section → Option Entries
  | [] => some root
  | s :: more => do placeAll? (← s.place? root) more

end Section
end BackupRotation.Toml
