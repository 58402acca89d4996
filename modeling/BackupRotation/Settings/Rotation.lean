import BackupRotation.Binary64.Decimal
import BackupRotation.Event
import BackupRotation.Policy.Text
import BackupRotation.Record
import BackupRotation.Toml.Basic
/-! The rotation section of the settings: a policy as text under the key `policy`, or as a record.
A section that is neither is not an error; the event to tell says what was not understood. -/
namespace BackupRotation

mutual
def Toml.record : Toml → Json
  | .string s => .string s
  | .integer n => .number n
  | .float x => .decimal (String.ofList x.text)
  | .boolean b => .bool b
  | .moment m => .string (String.ofList m.text)
  | .array items => .array (Toml.recordItems items)
  | .table entries => .object (Toml.recordMembers entries)
def Toml.recordItems : List Toml → List Json
  | [] => []
  | v :: vs => v.record :: Toml.recordItems vs
def Toml.recordMembers : List (String × Toml) → List (String × Json)
  | [] => []
  | (k, v) :: es => (k, v.record) :: Toml.recordMembers es
end

namespace Rotation

def policyText? : Toml → Option String
  | .table t =>
    match Toml.Table.get? t "policy" with
    | some (.string s) => some s
    | _ => none
  | _ => none

def structured? (v : Toml) : Option Policy := do
  Record.policyOf? (← Record.tagged? "kind" (fun _ => true) v.record)

/-- The policy of a section. A text decides alone, whatever else the section holds. -/
def read (v : Toml) : Except Event Policy :=
  match policyText? v with
  | some s =>
    match Policy.ofText s with
    | .ok p => .ok p
    | .error e => .error (.policyUnreadable s e.message)
  | none =>
    match structured? v with
    | some p => .ok p
    | none => .error .retentionUnreadable

def count (n : UInt32) : Toml := .integer n.toNat

def ofPolicy : Policy → Toml
  | .none => .table [("kind", .string "none")]
  | .simple n => .table [("keep_count", count n), ("kind", .string "simple")]
  | .smart d w m y => .table [("daily", count d), ("kind", .string "smart"),
      ("monthly", count m), ("weekly", count w), ("yearly", count y)]

end Rotation
end BackupRotation
