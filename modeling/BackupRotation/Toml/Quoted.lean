import BackupRotation.Text.Digits
/-! Reading the four quoted forms of TOML text: between double quotes with escapes, between single
quotes without, and either on several lines between three quotes. -/
namespace BackupRotation.Toml.Quoted

def isPrintable (c : Char) : Bool := c == '\t' || (32 ≤ c.toNat && c.toNat != 127)

def escape? : List Char → Option (Char × List Char)
  | 'u' :: cs => coded 4 cs
  | 'U' :: cs => coded 8 cs
  | c :: cs => (short? c).map fun c => (c, cs)
  | [] => none
where
  coded (width : Nat) (cs : List Char) : Option (Char × List Char) :=
    if cs.length < width then none
    else ((Text.hexValue? (cs.take width)).bind Text.ofCodePoint?).map fun c => (c, cs.drop width)
  short? : Char → Option Char
    | 'b' => some '\x08'
    | 't' => some '\t'
    | 'n' => some '\n'
    | 'f' => some '\x0c'
    | 'r' => some '\r'
    | '"' => some '"'
    | '\\' => some '\\'
    | _ => none

def after (c : Char) (r : Option (List Char × List Char)) : Option (List Char × List Char) :=
  r.map fun (text, rest) => (c :: text, rest)

def line : (fuel : Nat) → (escapes : Bool) → (quote : Char) → List Char →
    Option (List Char × List Char)
  | 0, _, _, _ => none
  | _, _, _, [] => none
  | fuel + 1, escapes, quote, c :: cs =>
    if c = quote then some ([], cs)
    else if escapes ∧ c = '\\' then do
      let (c, cs) ← escape? cs
      after c (line fuel escapes quote cs)
    else if isPrintable c then after c (line fuel escapes quote cs)
    else none

/-- Three quotes close a text of several lines. Up to two more before them belong to it. -/
def closing? (quote : Char) (cs : List Char) : Option (List Char × List Char) :=
  let run := (cs.takeWhile fun c => c == quote).length
  if run < 3 then none
  else
    let kept := min (run - 3) 2
    some (List.replicate kept quote, cs.drop (kept + 3))

/-- What follows a line break and the blanks and line breaks after it. A backslash at the end of a
line removes all of these. -/
def nextLine? (cs : List Char) : Option (List Char) :=
  let isSpace (c : Char) : Bool := c == ' ' || c == '\t'
  let rec skip : List Char → List Char
    | '\r' :: '\n' :: cs => skip cs
    | c :: cs => if isSpace c || c == '\n' then skip cs else c :: cs
    | [] => []
  match cs.dropWhile isSpace with
  | '\n' :: cs => some (skip cs)
  | '\r' :: '\n' :: cs => some (skip cs)
  | _ => none

def lines : (fuel : Nat) → (escapes : Bool) → (quote : Char) → List Char →
    Option (List Char × List Char)
  | 0, _, _, _ => none
  | _, _, _, [] => none
  | fuel + 1, escapes, quote, c :: cs =>
    match closing? quote (c :: cs) with
    | some closed => some closed
    | none =>
      if escapes ∧ c = '\\' then
        match nextLine? cs with
        | some cs => lines fuel escapes quote cs
        | none => do
          let (c, cs) ← escape? cs
          after c (lines fuel escapes quote cs)
      else if c = '\n' then after '\n' (lines fuel escapes quote cs)
      else if c = '\r' then
        match cs with
        | '\n' :: cs => after '\n' (lines fuel escapes quote cs)
        | _ => none
      else if isPrintable c then after c (lines fuel escapes quote cs)
      else none

def afterBreak : List Char → List Char
  | '\n' :: cs => cs
  | '\r' :: '\n' :: cs => cs
  | cs => cs

def readLine? : List Char → Option (List Char × List Char)
  | '"' :: cs => line (cs.length + 1) true '"' cs
  | '\'' :: cs => line (cs.length + 1) false '\'' cs
  | _ => none

def read? : List Char → Option (List Char × List Char)
  | '"' :: '"' :: '"' :: cs => lines (cs.length + 1) true '"' (afterBreak cs)
  | '\'' :: '\'' :: '\'' :: cs => lines (cs.length + 1) false '\'' (afterBreak cs)
  | cs => readLine? cs

example : read? "\"a\\u00e9\\n\" x".toList = some (['a', 'é', '\n'], [' ', 'x']) := by
  decide +kernel

end BackupRotation.Toml.Quoted
