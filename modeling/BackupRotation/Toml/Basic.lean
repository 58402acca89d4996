import BackupRotation.Binary64.Basic
import BackupRotation.Toml.Moment
/-! TOML values. The entries of a table stand in the order of their keys, except while a text is read:
there they stand as they were written. -/
namespace BackupRotation

inductive Toml where
  | string (s : String)
  | integer (n : Int)
  | float (x : Binary64)
  | boolean (b : Bool)
  | moment (m : Toml.Moment)
  | array (items : List Toml)
  | table (entries : List (String × Toml))
  deriving Repr, Inhabited

namespace Toml

abbrev Table := List (String × Toml)

namespace Table

def get? (t : Table) (key : String) : Option Toml := (t.find? fun e => e.1 == key).map fun e => e.2

def erase (t : Table) (key : String) : Table := t.filter fun e => e.1 != key

def insert (key : String) (value : Toml) : Table → Table
  | [] => [(key, value)]
  | (k, v) :: t =>
    if key < k then (key, value) :: (k, v) :: t
    else if key = k then (key, value) :: t
    else (k, v) :: insert key value t

def ofEntries (entries : List (String × Toml)) : Table :=
  entries.foldl (fun t e => insert e.1 e.2 t) []

end Table

def isTable : Toml → Bool
  | table _ => true
  | _ => false

/-- What a key without quotes is written with. -/
def isBare (c : Char) : Bool :=
  ('a' ≤ c && c ≤ 'z') || ('A' ≤ c && c ≤ 'Z') || ('0' ≤ c && c ≤ '9') || c == '_' || c == '-'

def leastInteger : Int := -9223372036854775808
def largestInteger : Int := 9223372036854775807

mutual
def same : Toml → Toml → Bool
  | string s, string t => s == t
  | integer m, integer n => m == n
  | float x, float y => x.sameValue y
  | boolean a, boolean b => a == b
  | moment m, moment n => m == n
  | array xs, array ys => sameItems xs ys
  | table xs, table ys => sameEntries xs ys
  | _, _ => false
def sameItems : List Toml → List Toml → Bool
  | [], [] => true
  | x :: xs, y :: ys => same x y && sameItems xs ys
  | _, _ => false
def sameEntries : List (String × Toml) → List (String × Toml) → Bool
  | [], [] => true
  | (k, x) :: xs, (l, y) :: ys => k == l && same x y && sameEntries xs ys
  | _, _ => false
end

theorem get?_insert (t : Table) (key : String) (value : Toml) :
    (t.insert key value).get? key = some value := by
  induction t with
  | nil => simp [Table.insert, Table.get?]
  | cons e t ih =>
    obtain ⟨k, v⟩ := e
    simp only [Table.insert]
    split
    · simp [Table.get?]
    · split
      · simp [Table.get?]
      · rename_i h
        have : (k == key) = false := beq_false_of_ne (Ne.symm h)
        simpa [Table.get?, List.find?_cons, this] using ih

end Toml
end BackupRotation
