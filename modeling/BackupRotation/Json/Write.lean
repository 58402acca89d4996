import BackupRotation.Json.Basic
import BackupRotation.Text.Digits
/-! Writing JSON text, on one line or with one member a line. Quotes, backslashes and control
characters are escaped and nothing else. -/
namespace BackupRotation
namespace Json
open Text (signedDigits hexChar)

def escape (c : Char) : List Char :=
  match c with
  | '"' => ['\\', '"']
  | '\\' => ['\\', '\\']
  | '\x08' => ['\\', 'b']
  | '\x0c' => ['\\', 'f']
  | '\n' => ['\\', 'n']
  | '\r' => ['\\', 'r']
  | '\t' => ['\\', 't']
  | c =>
    if c.toNat < 32 then ['\\', 'u', '0', '0', hexChar (c.toNat / 16), hexChar (c.toNat % 16)]
    else [c]

def quoted (s : String) : List Char := '"' :: s.toList.flatMap escape ++ ['"']

def scalar : Json → List Char
  | bool true => "true".toList
  | bool false => "false".toList
  | number n => signedDigits n
  | decimal written => written.toList
  | string s => quoted s
  | _ => "null".toList

mutual
def compact : Json → List Char
  | array items => '[' :: compactItems items
  | object members => '{' :: compactMembers members
  | j => scalar j
def compactItems : List Json → List Char
  | [] => [']']
  | [j] => compact j ++ [']']
  | j :: js => compact j ++ ',' :: compactItems js
def compactMembers : List (String × Json) → List Char
  | [] => ['}']
  | [(name, j)] => quoted name ++ ':' :: compact j ++ ['}']
  | (name, j) :: ms => quoted name ++ ':' :: compact j ++ ',' :: compactMembers ms
end

def newline (indent : Nat) : List Char := '\n' :: List.replicate (2 * indent) ' '

mutual
def pretty (indent : Nat) : Json → List Char
  | array [] => ['[', ']']
  | array items => '[' :: prettyItems (indent + 1) items ++ newline indent ++ [']']
  | object [] => ['{', '}']
  | object members => '{' :: prettyMembers (indent + 1) members ++ newline indent ++ ['}']
  | j => scalar j
def prettyItems (indent : Nat) : List Json → List Char
  | [] => []
  | [j] => newline indent ++ pretty indent j
  | j :: js => newline indent ++ pretty indent j ++ ',' :: prettyItems indent js
def prettyMembers (indent : Nat) : List (String × Json) → List Char
  | [] => []
  | [(name, j)] => newline indent ++ quoted name ++ ':' :: ' ' :: pretty indent j
  | (name, j) :: ms =>
    newline indent ++ quoted name ++ ':' :: ' ' :: pretty indent j ++ ',' :: prettyMembers indent ms
end

def toText (j : Json) : String := String.ofList (compact j)
def toPrettyText (j : Json) : String := String.ofList (pretty 0 j)

end Json
end BackupRotation
