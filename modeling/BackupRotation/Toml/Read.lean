import BackupRotation.Toml.Canonical
import BackupRotation.Toml.Moment
import BackupRotation.Toml.Number
import BackupRotation.Toml.Quoted
import BackupRotation.Toml.Outline
/-! Reading TOML text: keys, values, and lines, which are gathered into sections. -/
namespace BackupRotation.Toml
namespace Read
open Quoted (isPrintable)

/-- Arrays and inline tables nested this deep, and keys of this many parts, are refused. -/
def nestingLimit : Nat := 80

def skipBlanks (cs : List Char) : List Char := cs.dropWhile fun c => c == ' ' || c == '\t'

def keyPart? (cs : List Char) : Option (String × List Char) :=
  match cs with
  | '"' :: _ => (Quoted.readLine? cs).map fun (s, rest) => (String.ofList s, rest)
  | '\'' :: _ => (Quoted.readLine? cs).map fun (s, rest) => (String.ofList s, rest)
  | _ =>
    let part := cs.takeWhile isBare
    if part = [] then none else some (String.ofList part, cs.drop part.length)

def keyParts? : (fuel : Nat) → List Char → Option (List String × List Char)
  | 0, _ => none
  | fuel + 1, cs => do
    let (part, rest) ← keyPart? (skipBlanks cs)
    match skipBlanks rest with
    | '.' :: rest => (keyParts? fuel rest).map fun (parts, rest) => (part :: parts, rest)
    | rest => some ([part], rest)

def key? (cs : List Char) : Option (List String × List Char) :=
  (keyParts? (cs.length + 1) cs).filter fun k => k.1.length < nestingLimit

def skipLines : (comment : Bool) → List Char → List Char
  | _, [] => []
  | _, '\r' :: '\n' :: cs => skipLines false cs
  | _, '\n' :: cs => skipLines false cs
  | true, c :: cs => if isPrintable c then skipLines true cs else c :: cs
  | false, c :: cs =>
    if c = ' ' ∨ c = '\t' then skipLines false cs
    else if c = '#' then skipLines true cs
    else c :: cs

def scalar? (cs : List Char) : Option (Toml × List Char) :=
  match cs with
  | 't' :: 'r' :: 'u' :: 'e' :: rest => some (.boolean true, rest)
  | 'f' :: 'a' :: 'l' :: 's' :: 'e' :: rest => some (.boolean false, rest)
  | _ =>
    match Quoted.read? cs with
    | some (s, rest) => some (.string (String.ofList s), rest)
    | none =>
      match Moment.read? cs with
      | some (m, rest) => some (.moment m, rest)
      | none => Number.read? cs

mutual
def value? : (fuel depth : Nat) → List Char → Option (Toml × List Char)
  | 0, _, _ => none
  | fuel + 1, depth, cs =>
    match cs with
    | '[' :: cs =>
      if nestingLimit ≤ depth + 1 then none
      else (items? fuel (depth + 1) cs).map fun (items, rest) => (.array items, rest)
    | '{' :: cs =>
      if nestingLimit ≤ depth + 1 then none
      else
        match skipBlanks cs with
        | '}' :: rest => some (.table [], rest)
        | _ => do
          let (pairs, rest) ← pairs? fuel (depth + 1) cs
          some (.table (Outline.finishEntries (← Outline.assignAll [] pairs)), rest)
    | cs => scalar? cs
def items? : (fuel depth : Nat) → List Char → Option (List Toml × List Char)
  | 0, _, _ => none
  | fuel + 1, depth, cs =>
    match skipLines false cs with
    | ']' :: rest => some ([], rest)
    | cs => do
      let (item, rest) ← value? fuel depth cs
      match skipLines false rest with
      | ',' :: rest => (items? fuel depth rest).map fun (items, rest) => (item :: items, rest)
      | ']' :: rest => some ([item], rest)
      | _ => none
def pairs? : (fuel depth : Nat) → List Char → Option (List (List String × Toml) × List Char)
  | 0, _, _ => none
  | fuel + 1, depth, cs => do
    let (path, rest) ← key? cs
    let (v, rest) ← value? fuel depth (skipBlanks (← Text.afterStart? ['='] rest))
    match skipBlanks rest with
    | ',' :: rest => (pairs? fuel depth rest).map fun (pairs, rest) => ((path, v) :: pairs, rest)
    | '}' :: rest => some ([(path, v)], rest)
    | _ => none
end

def endOfLine? : List Char → Option (List Char)
  | [] => some []
  | '\n' :: cs => some cs
  | '\r' :: '\n' :: cs => some cs
  | _ => none

def lineEnd? (cs : List Char) : Option (List Char) :=
  match skipBlanks cs with
  | '#' :: cs => endOfLine? (cs.dropWhile isPrintable)
  | cs => endOfLine? cs

inductive Line where
  | blank
  | header (h : Header)
  | assignment (path : List String) (v : Toml)

def content? (cs : List Char) : Option (Line × List Char) :=
  match cs with
  | '[' :: '[' :: cs => do
    let (path, rest) ← key? cs
    some (.header (.element path), ← Text.afterStart? [']', ']'] rest)
  | '[' :: cs => do
    let (path, rest) ← key? cs
    some (.header (.table path), ← Text.afterStart? [']'] rest)
  | [] => some (.blank, [])
  | '#' :: _ => some (.blank, cs)
  | '\n' :: _ => some (.blank, cs)
  | '\r' :: _ => some (.blank, cs)
  | _ => do
    let (path, rest) ← key? cs
    let rest := skipBlanks (← Text.afterStart? ['='] rest)
    let (v, rest) ← value? (2 * rest.length + 2) 0 rest
    some (.assignment path v, rest)

def lines? : (fuel : Nat) → List Char → Option (List Line)
  | 0, _ => none
  | fuel + 1, cs =>
    if cs = [] then some []
    else do
      let (l, rest) ← content? (skipBlanks cs)
      let more ← lines? fuel (← lineEnd? rest)
      some (l :: more)

def sections : List Line → List (List String × Toml) × List Section
  | [] => ([], [])
  | .blank :: ls => sections ls
  | .assignment path v :: ls =>
    let (first, more) := sections ls
    ((path, v) :: first, more)
  | .header h :: ls =>
    let (first, more) := sections ls
    ([], ⟨h, first⟩ :: more)

def afterMark : List Char → List Char
  | '\uFEFF' :: cs => cs
  | cs => cs

end Read

def read? (cs : List Char) : Option Table := do
  let cs := Read.afterMark cs
  let (first, more) := Read.sections (← Read.lines? (cs.length + 1) cs)
  let root ← Outline.assignAll [] first
  Canonical.table? (Outline.finishEntries (← Section.placeAll? root more))

def ofText? (s : String) : Option Table := read? s.toList

end BackupRotation.Toml
