import BackupRotation.Toml.Basic
/-! Values as they are kept, made from values as they are written. The entries of a written table have
an order, which is given up, but the first of them counts: under one key it makes the table stand for
a date or a time. -/
namespace BackupRotation.Toml
namespace Canonical

def momentKey : String := "$__toml_private_datetime"

def moment? : Toml → Option Moment
  | .string s => Moment.ofText? s
  | _ => none

mutual
/-- The value to keep. Nothing behind the first entry of a date or time is looked at. -/
def value? : Toml → Option Toml
  | .array items => (items? items).map .array
  | .table [] => some (.table [])
  | .table ((key, v) :: es) =>
    if key = momentKey then (moment? v).map .moment
    else do
      let first ← value? v
      let more ← entries? es
      some (.table (Table.ofEntries ((key, first) :: more)))
  | v => some v
def items? : List Toml → Option (List Toml)
  | [] => some []
  | v :: vs => do some ((← value? v) :: (← items? vs))
def entries? : List (String × Toml) → Option (List (String × Toml))
  | [] => some []
  | (key, v) :: es => do some ((key, ← value? v) :: (← entries? es))
end

def table? (entries : List (String × Toml)) : Option Table :=
  (entries? entries).map Table.ofEntries

example :
    value? (.table [(momentKey, .string "07:32:00"), ("x", .table [(momentKey, .integer 1)])]) =
      some (.moment (.localTime ⟨7, 32, 0, 0⟩)) := by rfl

end Canonical
end BackupRotation.Toml
