import BackupRotation.Text.Digits
import BackupRotation.Toml.Basic
/-! Writing TOML text and keys. Of the quoted forms the plainest that needs no escape is taken; only a
text that fits none is escaped. -/
namespace BackupRotation.Toml.Plain

def isControl (c : Char) : Bool := c.toNat < 32 || c.toNat == 127

def needsCode (c : Char) : Bool := isControl c && c != '\t' && c != '\n'

def longestRun (quote : Char) (run : Nat) : List Char → Nat
  | [] => run
  | c :: cs => if c = quote then longestRun quote (run + 1) cs else max run (longestRun quote 0 cs)

structure Needs where
  codes : Bool
  backslash : Bool
  lineBreak : Bool
  doubles : Nat
  singles : Nat
  deriving DecidableEq, Repr

def needs (cs : List Char) : Needs where
  codes := cs.any needsCode
  backslash := '\\' ∈ cs
  lineBreak := '\n' ∈ cs
  doubles := longestRun '"' 0 cs
  singles := longestRun '\'' 0 cs

inductive Form where
  | basic
  | literal
  | basicLines
  | literalLines
  deriving DecidableEq, Repr

def form (n : Needs) : Form :=
  if !n.codes && !n.backslash && n.doubles == 0 && !n.lineBreak then .basic
  else if !n.codes && n.singles == 0 && !n.lineBreak then .literal
  else if !n.codes && !n.backslash && n.doubles ≤ 2 then .basicLines
  else if !n.codes && n.singles ≤ 2 then .literalLines
  else if n.lineBreak then .basicLines
  else .basic

def code (n : Nat) : List Char :=
  '\\' :: 'u' :: [n / 4096 % 16, n / 256 % 16, n / 16 % 16, n % 16].map fun d =>
    (Text.hexChar d).toUpper

def escaped (c : Char) : List Char :=
  match c with
  | '\x08' => ['\\', 'b']
  | '\t' => ['\\', 't']
  | '\n' => ['\\', 'n']
  | '\x0c' => ['\\', 'f']
  | '\r' => ['\\', 'r']
  | '"' => ['\\', '"']
  | '\\' => ['\\', '\\']
  | c => if isControl c then code c.toNat else [c]

/-- A text of several lines between double quotes. Every third quote of a run is escaped. -/
def escapedLines (run : Nat) : List Char → List Char
  | [] => []
  | '"' :: cs => if run < 2 then '"' :: escapedLines (run + 1) cs else '\\' :: '"' :: escapedLines 0 cs
  | '\n' :: cs => '\n' :: escapedLines 0 cs
  | c :: cs => escaped c ++ escapedLines 0 cs

def text (cs : List Char) : List Char :=
  let n := needs cs
  let lineBreak : List Char := if n.lineBreak then ['\n'] else []
  match form n with
  | .basic => '"' :: cs.flatMap escaped ++ ['"']
  | .literal => '\'' :: cs ++ ['\'']
  | .basicLines => List.replicate 3 '"' ++ lineBreak ++ escapedLines 0 cs ++ List.replicate 3 '"'
  | .literalLines => List.replicate 3 '\'' ++ lineBreak ++ cs ++ List.replicate 3 '\''

def key (cs : List Char) : List Char :=
  let n := needs cs
  if cs ≠ [] ∧ cs.all isBare then cs
  else if !n.codes && !n.lineBreak && !n.backslash && n.doubles == 0 then '"' :: cs.flatMap escaped ++ ['"']
  else if !n.codes && !n.lineBreak && n.singles == 0 then '\'' :: cs ++ ['\'']
  else '"' :: cs.flatMap escaped ++ ['"']

example : text "say \"hi\"".toList = "'say \"hi\"'".toList := by decide +kernel

end BackupRotation.Toml.Plain
