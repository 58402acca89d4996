import BackupRotation.Decision
import BackupRotation.Instant.Read
import BackupRotation.Instant.Written
import BackupRotation.Json.Basic
/-! The JSON forms of policies, tiers, reasons, backups, results and verdicts. A record is an object
or the array of its fields in order. An object may hold other members, which nobody reads; a field
may not repeat. A value of several shapes carries the name of its shape as a field of its own. -/
namespace BackupRotation
namespace Record

def depthLimit : Nat := 127

def natural? (limit : Nat) : Json → Option Nat
  | .number n => if 0 ≤ n ∧ n < limit then some n.toNat else none
  | _ => none

def text? : Json → Option String
  | .string s => some s
  | _ => none

def truth? : Json → Option Bool
  | .bool b => some b
  | _ => none

def named (name : String) (members : List (String × Json)) : List Json :=
  (members.filter fun m => m.1 = name).map fun m => m.2

def required? (members : List (String × Json)) : List String → Option (List Json)
  | [] => some []
  | name :: names =>
    match named name members with
    | [j] => (required? members names).map fun js => j :: js
    | _ => none

def fields? (names : List String) : Json → Option (List Json)
  | .object members => required? members names
  | .array items => if items.length = names.length then some items else none
  | _ => none

structure Tagged where
  shape : String
  rest : Json

/-- Whether a value can be kept until its shape is known, with `level` arrays and objects around it and
itself among them: it has to be meaningful and not too deep. -/
def keeps (level : Nat) (j : Json) : Bool := j.isMeaningful && level + j.depth ≤ depthLimit

def tagged? (tag : String) (kept : Json → Bool) (j : Json) : Option Tagged :=
  match j with
  | .object members =>
    match named tag members with
    | [.string shape] =>
      let rest := members.filter fun m => m.1 ≠ tag
      if rest.all fun m => kept m.2 then some ⟨shape, .object rest⟩ else none
    | _ => none
  | .array (.string shape :: rest) =>
    if rest.all kept then some ⟨shape, .array rest⟩ else none
  | _ => none

def fieldless : Json → Bool
  | .array items => items.isEmpty
  | _ => true

def count? : Json → Option UInt32
  | .number n => if -9223372036854775808 ≤ n ∧ n < 9223372036854775808 then some (Policy.clamp n) else none
  | _ => none

def optionalCounts? (members : List (String × Json)) : List String → Option (List UInt32)
  | [] => some []
  | name :: names => do
    let n ← match named name members with
      | [] => some 0
      | [j] => count? j
      | _ => none
    let ns ← optionalCounts? members names
    some (n :: ns)

def tierCounts? : Json → Option (List UInt32)
  | .object members => optionalCounts? members (Tier.all.map Tier.name)
  | .array items =>
    if items.length ≤ 4 then
      (items.mapM count?).map fun ns => ns ++ List.replicate (4 - items.length) 0
    else none
  | _ => none

def policyOf? (t : Tagged) : Option Policy := do
  if t.shape = "none" then
    if fieldless t.rest then some .none else none
  else if t.shape = "simple" then
    match ← fields? ["keep_count"] t.rest with
    | [n] => (count? n).map Policy.simple
    | _ => none
  else if t.shape = "smart" then
    match ← tierCounts? t.rest with
    | [d, w, m, y] => some (.smart d w m y)
    | _ => none
  else none

def policy? (j : Json) : Option Policy := do policyOf? (← tagged? "kind" (keeps 1) j)

def ofCount (n : UInt32) : Json := .number n.toNat

def ofPolicy : Policy → Json
  | .none => .object [("kind", .string "none")]
  | .simple n => .object [("kind", .string "simple"), ("keep_count", ofCount n)]
  | .smart d w m y => .object [("kind", .string "smart"), ("daily", ofCount d),
      ("weekly", ofCount w), ("monthly", ofCount m), ("yearly", ofCount y)]

def tierNamed? (name : String) : Option Tier := Tier.all.find? fun t => t.name = name

def tier? : Json → Option Tier
  | .string name => tierNamed? name
  | .object [(name, .null)] => tierNamed? name
  | _ => none

/-- Inside a value that was kept, no value may also be an empty object. -/
def keptTier? : Json → Option Tier
  | .object [(name, .object [])] => tierNamed? name
  | j => tier? j

def ofTier (t : Tier) : Json := .string t.name

def reason? (level : Nat) (j : Json) : Option Reason := do
  let t ← tagged? "reason" (keeps level) j
  if t.shape = "keep_all" then
    if fieldless t.rest then some .keepAll else none
  else if t.shape = "recent" then
    match ← fields? ["rank"] t.rest with
    | [n] => (natural? 18446744073709551616 n).map Reason.recent
    | _ => none
  else if t.shape = "slot" then
    match ← fields? ["tier", "slot"] t.rest with
    | [tier, n] => do some (.slot (← keptTier? tier) (← natural? 4294967296 n))
    | _ => none
  else none

def ofReason : Reason → Json
  | .keepAll => .object [("reason", .string "keep_all")]
  | .recent rank => .object [("reason", .string "recent"), ("rank", .number rank)]
  | .slot t index =>
    .object [("reason", .string "slot"), ("tier", ofTier t), ("slot", .number index)]

def instant? (j : Json) : Option Instant := do Instant.ofInterchange? (← text? j).toList

def ofInstant (t : Instant) : Json := .string (String.ofList t.interchange)

def artifact? (j : Json) : Option Artifact := do
  match ← fields? ["id", "size_bytes", "timestamp"] j with
  | [id, size, created] =>
    some ⟨← text? id, UInt64.ofNat (← natural? 18446744073709551616 size), ← instant? created⟩
  | _ => none

def ofArtifact (a : Artifact) : Json :=
  .object [("id", .string a.id), ("size_bytes", .number a.size.toNat),
    ("timestamp", ofInstant a.created)]

def list? {α : Type} (item : Json → Option α) : Json → Option (List α)
  | .array items => items.mapM item
  | _ => none

def partition? (j : Json) : Option Partition := do
  match ← fields? ["keep", "delete"] j with
  | [keep, delete] => some ⟨← list? artifact? keep, ← list? artifact? delete⟩
  | _ => none

def ofArtifacts (as : List Artifact) : Json := .array (as.map ofArtifact)

def ofPartition (p : Partition) : Json :=
  .object [("keep", ofArtifacts p.keep), ("delete", ofArtifacts p.delete)]

def verdict? (j : Json) : Option Verdict := do
  match ← fields? ["artifact", "keep", "reasons"] j with
  | [artifact, keep, reasons] =>
    some ⟨← artifact? artifact, ← truth? keep, ← list? (reason? 3) reasons⟩
  | _ => none

def ofVerdict (v : Verdict) : Json :=
  .object [("artifact", ofArtifact v.artifact), ("keep", .bool v.keep),
    ("reasons", .array (v.reasons.map ofReason))]

end Record
end BackupRotation
