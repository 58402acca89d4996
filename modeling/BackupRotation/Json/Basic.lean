/-! JSON values. Numbers that are integers of 64 bits stand apart from all others, because only they
are ever wanted. -/
namespace BackupRotation

inductive Json where
  | null
  | bool (b : Bool)
  | number (n : Int)
  | decimal (written : String)
  | string (s : String)
  | array (items : List Json)
  | object (members : List (String × Json))
  /-- Well-formed text that names no value: an escape of half a surrogate pair, or a number beyond
  the doubles. It may stand where nobody reads it. -/
  | meaningless
  deriving Repr, Inhabited

namespace Json

mutual
def depth : Json → Nat
  | array items => depthOfItems items + 1
  | object members => depthOfMembers members + 1
  | _ => 0
def depthOfItems : List Json → Nat
  | [] => 0
  | j :: js => max (depth j) (depthOfItems js)
def depthOfMembers : List (String × Json) → Nat
  | [] => 0
  | (_, j) :: ms => max (depth j) (depthOfMembers ms)
end

mutual
def isMeaningful : Json → Bool
  | array items => itemsMeaningful items
  | object members => membersMeaningful members
  | meaningless => false
  | _ => true
def itemsMeaningful : List Json → Bool
  | [] => true
  | j :: js => isMeaningful j && itemsMeaningful js
def membersMeaningful : List (String × Json) → Bool
  | [] => true
  | (_, j) :: ms => isMeaningful j && membersMeaningful ms
end

end Json
end BackupRotation
