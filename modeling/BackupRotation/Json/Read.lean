import BackupRotation.Json.Basic
import BackupRotation.Text.Digits
import BackupRotation.Json.Magnitude
/-! Reading JSON text. Members keep their order and may repeat a name. -/
namespace BackupRotation
namespace Json
open Text (isDigit valueOf hexValue?)

def isSpace (c : Char) : Bool := c == ' ' || c == '\n' || c == '\t' || c == '\r'

def skip (cs : List Char) : List Char := cs.dropWhile isSpace

def hexUnit? (a b c d : Char) : Option Nat := hexValue? [a, b, c, d]

def escaped? (c : Char) : Option Char :=
  match c with
  | '"' => some '"'
  | '\\' => some '\\'
  | '/' => some '/'
  | 'b' => some '\x08'
  | 'f' => some '\x0c'
  | 'n' => some '\n'
  | 'r' => some '\r'
  | 't' => some '\t'
  | _ => none

def isHighSurrogate (n : Nat) : Bool := 0xD800 ≤ n && n < 0xDC00
def isLowSurrogate (n : Nat) : Bool := 0xDC00 ≤ n && n < 0xE000

def lowHalf? : List Char → Option (Nat × List Char)
  | '\\' :: 'u' :: a :: b :: c :: d :: cs => do
    let low ← hexUnit? a b c d
    if isLowSurrogate low then some (low, cs) else none
  | _ => none

/-- Characters after the opening quote. The inner option is empty when half of a surrogate pair
stands alone. -/
def stringBody : (fuel : Nat) → List Char → Option (Option (List Char) × List Char)
  | 0, _ => none
  | _, [] => none
  | fuel + 1, c :: cs =>
    let next (one : Option Char) (cs : List Char) : Option (Option (List Char) × List Char) := do
      let (text, rest) ← stringBody fuel cs
      some (one.bind fun c => text.map fun t => c :: t, rest)
    if c = '"' then some (some [], cs)
    else if c = '\\' then
      match cs with
      | 'u' :: a :: b :: c :: d :: cs => do
        let unit ← hexUnit? a b c d
        if isHighSurrogate unit then
          match lowHalf? cs with
          | some (low, cs) =>
            next (some (Char.ofNat (0x10000 + (unit - 0xD800) * 1024 + (low - 0xDC00)))) cs
          | none => next none cs
        else if isLowSurrogate unit then next none cs
        else next (some (Char.ofNat unit)) cs
      | e :: cs => do next (some (← escaped? e)) cs
      | [] => none
    else if c.toNat < 32 then none
    else next (some c) cs

def string? (cs : List Char) : Option (Option (List Char) × List Char) :=
  stringBody (cs.length + 1) cs

def whole? (cs : List Char) : Option (List Char × List Char) :=
  let ds := cs.takeWhile isDigit
  match ds with
  | [] => none
  | ['0'] => some (ds, cs.drop 1)
  | '0' :: _ => none
  | _ => some (ds, cs.drop ds.length)

def fraction? (cs : List Char) : Option (List Char × List Char) :=
  match cs with
  | '.' :: cs =>
    let ds := cs.takeWhile isDigit
    if ds = [] then none else some (ds, cs.drop ds.length)
  | _ => some ([], cs)

def exponent? (cs : List Char) : Option (Option Int × List Char) :=
  let after (sign : Int) (cs : List Char) : Option (Option Int × List Char) :=
    let ds := cs.takeWhile isDigit
    if ds = [] then none else some (some (sign * valueOf ds), cs.drop ds.length)
  match cs with
  | e :: cs' =>
    if e = 'e' ∨ e = 'E' then
      match cs' with
      | '+' :: cs' => after 1 cs'
      | '-' :: cs' => after (-1) cs'
      | cs' => after 1 cs'
    else some (none, cs)
  | [] => some (none, [])

def number? (cs : List Char) : Option (Json × List Char) := do
  let (negative, start) := match cs with
    | '-' :: rest => (true, rest)
    | _ => (false, cs)
  let (ds, rest) ← whole? start
  let (fs, rest) ← fraction? rest
  let (exponent, rest) ← exponent? rest
  let n := valueOf ds
  let written := String.ofList (cs.take (cs.length - rest.length))
  if fs = [] ∧ exponent = none ∧ negative ∧ n ≠ 0 ∧ n ≤ 9223372036854775808 then some (number (-(n : Int)), rest)
  else if fs = [] ∧ exponent = none ∧ !negative ∧ n < 18446744073709551616 then some (number n, rest)
  else
    let (n, places) := Magnitude.leading ds fs
    if Magnitude.tooLarge n (places + exponent.getD 0) then some (meaningless, rest)
    else some (decimal written, rest)

/-- A value whose parts could be read; a member whose name could not leaves the object meaningless. -/
def ofMembers (members : List (Option (List Char) × Json)) : Json :=
  if members.all fun m => m.1.isSome then
    object (members.map fun (name, j) => (String.ofList (name.getD []), j))
  else meaningless

mutual
def value : (fuel : Nat) → List Char → Option (Json × List Char)
  | 0, _ => none
  | fuel + 1, cs =>
    match skip cs with
    | '{' :: cs =>
      match skip cs with
      | '}' :: cs => some (object [], cs)
      | cs => (members fuel cs).map fun (ms, rest) => (ofMembers ms, rest)
    | '[' :: cs =>
      match skip cs with
      | ']' :: cs => some (array [], cs)
      | cs => (items fuel cs).map fun (js, rest) => (array js, rest)
    | '"' :: cs =>
      match string? cs with
      | some (some s, rest) => some (string (String.ofList s), rest)
      | some (none, rest) => some (meaningless, rest)
      | none => none
    | 'n' :: 'u' :: 'l' :: 'l' :: cs => some (null, cs)
    | 't' :: 'r' :: 'u' :: 'e' :: cs => some (bool true, cs)
    | 'f' :: 'a' :: 'l' :: 's' :: 'e' :: cs => some (bool false, cs)
    | cs => number? cs
def items : (fuel : Nat) → List Char → Option (List Json × List Char)
  | 0, _ => none
  | fuel + 1, cs => do
    let (j, rest) ← value fuel cs
    match skip rest with
    | ',' :: rest => do
      let (js, rest) ← items fuel rest
      some (j :: js, rest)
    | ']' :: rest => some ([j], rest)
    | _ => none
def members : (fuel : Nat) → List Char → Option (List (Option (List Char) × Json) × List Char)
  | 0, _ => none
  | fuel + 1, cs =>
    match skip cs with
    | '"' :: cs => do
      let (name, rest) ← string? cs
      match skip rest with
      | ':' :: rest => do
        let (j, rest) ← value fuel rest
        match skip rest with
        | ',' :: rest => do
          let (ms, rest) ← members fuel rest
          some ((name, j) :: ms, rest)
        | '}' :: rest => some ([(name, j)], rest)
        | _ => none
      | _ => none
    | _ => none
end

def read? (cs : List Char) : Option Json := do
  let (j, rest) ← value (2 * cs.length + 2) cs
  if skip rest = [] then some j else none

def ofText? (s : String) : Option Json := read? s.toList

end Json
end BackupRotation
