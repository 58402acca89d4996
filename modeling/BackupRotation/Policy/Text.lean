import BackupRotation.Text.Split
import BackupRotation.Text.Digits
import BackupRotation.Policy.Basic
/-! The text form of a policy: `none`, `simple:7`, `smart:7,4,12,1` or `smart:weekly=4,daily=7`.
Letters have no case, and blanks may stand around each part. -/
namespace BackupRotation

inductive PolicyError where
  | unknownKind (kind : String)
  | missingValue (kind : String)
  | invalidCount (text : String)
  | unknownTier (name : String)
  | tooManyTiers (count : Nat)
  | mixedTiers
  deriving DecidableEq, Repr

namespace PolicyError

def message : PolicyError → String
  | unknownKind k => s!"unknown policy kind '{k}' (expected none, simple or smart)"
  | missingValue k => s!"policy '{k}' needs a value, e.g. simple:7 or smart:7,4,12,1"
  | invalidCount t => s!"invalid count '{t}'"
  | unknownTier n => s!"unknown tier '{n}' (expected daily, weekly, monthly or yearly)"
  | tooManyTiers n => s!"smart policy takes at most 4 tier counts, got {n}"
  | mixedTiers => "cannot mix positional and named tier counts"

end PolicyError

namespace Policy
open Text (trim lower splitFirst? splitAll integer64? digits)

def text : Policy → List Char
  | none => "none".toList
  | simple n => "simple:".toList ++ digits n.toNat
  | smart d w m y =>
    "smart:".toList ++ digits d.toNat ++ ',' :: digits w.toNat ++ ',' :: digits m.toNat ++
      ',' :: digits y.toNat

def readCount (part : List Char) : Except PolicyError Int :=
  let part := trim part
  match integer64? part with
  | some n => .ok n
  | .none => .error (.invalidCount (String.ofList part))

def readCounts : List (List Char) → Except PolicyError (List Int)
  | [] => .ok []
  | part :: parts => do
    let n ← readCount part
    let ns ← readCounts parts
    .ok (n :: ns)

def readPositional (parts : List (List Char)) : Except PolicyError Policy := do
  if 4 < parts.length then .error (.tooManyTiers parts.length)
  else
    let ns ← readCounts parts
    .ok (ofCounts (ns.getD 0 0) (ns.getD 1 0) (ns.getD 2 0) (ns.getD 3 0))

def readNamed (counts : Tier → Int) : List (List Char) → Except PolicyError (Tier → Int)
  | [] => .ok counts
  | part :: parts => do
    let (name, count) := (splitFirst? '=' part).getD (part, [])
    match Tier.ofName? (trim name) with
    | .none => .error (.unknownTier (String.ofList (trim name)))
    | some tier =>
      let n ← readCount count
      readNamed (fun t => if t = tier then n else counts t) parts

def readTiers (value : List Char) : Except PolicyError Policy :=
  let parts := (splitAll ',' value).map trim
  let named := parts.countP fun part => '=' ∈ part
  if named = 0 then readPositional parts
  else if named = parts.length then do
    let counts ← readNamed (fun _ => 0) parts
    .ok (ofCounts (counts .daily) (counts .weekly) (counts .monthly) (counts .yearly))
  else .error .mixedTiers

def readKind (kind : List Char) (value : Option (List Char)) : Except PolicyError Policy :=
  let missing := PolicyError.missingValue (String.ofList kind)
  let value := value.filter fun v => v ≠ []
  if kind = "none".toList ∨ kind = "keep-all".toList then .ok none
  else if kind = "simple".toList then
    match value with
    | .none => .error missing
    | some v => do .ok (ofCount (← readCount v))
  else if kind = "smart".toList ∨ kind = "gvs".toList then
    match value with
    | .none => .error missing
    | some v => readTiers v
  else .error (.unknownKind (String.ofList kind))

def read (cs : List Char) : Except PolicyError Policy :=
  let cs := lower (trim cs)
  match splitFirst? ':' cs with
  | some (kind, value) => readKind (trim kind) (some (trim value))
  | .none => readKind cs .none

def ofText (s : String) : Except PolicyError Policy := read s.toList

def toText (p : Policy) : String := String.ofList p.text

end Policy
end BackupRotation
