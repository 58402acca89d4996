import BackupRotation.Instant.Basic
import BackupRotation.Octets
/-! A file system as the list of what lies in it: directories, files and symbolic links, each at the
names that lead to it from the root. The root itself is a directory and not listed. -/
namespace BackupRotation

structure FileData where
  content : Octets
  zeros : Nat
  modified : Instant
  deriving DecidableEq, Repr

namespace FileData

def size (f : FileData) : Nat := f.content.size + f.zeros

def text? (f : FileData) : Option String :=
  f.content.text?.map fun s => s ++ String.ofList (List.replicate f.zeros '\x00')

end FileData

inductive Node where
  | directory
  | file (data : FileData)
  | link (target : String)
  deriving DecidableEq, Repr

abbrev Location := List Octets

structure Volume where
  nodes : List (Location × Node)
  unique : (nodes.map Prod.fst).Nodup

namespace Volume

def empty : Volume := ⟨[], List.nodup_nil⟩

instance : Inhabited Volume := ⟨empty⟩

def node? (v : Volume) (l : Location) : Option Node :=
  if l = [] then some .directory else (v.nodes.find? fun e => e.1 = l).map Prod.snd

def nameIn? (directory l : Location) : Option Octets :=
  match l.getLast? with
  | some name => if l.dropLast = directory then some name else none
  | none => none

def names (v : Volume) (directory : Location) : List Octets :=
  v.nodes.filterMap fun e => nameIn? directory e.1

def erase (v : Volume) (l : Location) : Volume where
  nodes := v.nodes.filter fun e => e.1 ≠ l
  unique := v.unique.sublist (List.filter_sublist.map Prod.fst)

def insert (v : Volume) (l : Location) (n : Node) : Volume where
  nodes := (l, n) :: (v.erase l).nodes
  unique := by
    refine List.nodup_cons.mpr ⟨?_, (v.erase l).unique⟩
    simp [erase]

theorem node?_erase (v : Volume) (l m : Location) (root : l ≠ []) :
    (v.erase l).node? m = if m = l then none else v.node? m := by
  unfold node?
  by_cases hm : m = []
  · have : m ≠ l := fun h => root (h ▸ hm)
    simp [hm, Ne.symm root]
  · by_cases h : m = l
    · subst h
      simp [erase, List.find?_filter, hm]
    · have kept : (fun e : Location × Node => decide (e.1 ≠ l) && decide (e.1 = m)) =
          fun e => decide (e.1 = m) := by
        funext e
        by_cases he : e.1 = m <;> simp [he, h]
      simp [erase, hm, h, List.find?_filter, ← kept]

theorem node?_insert (v : Volume) (l m : Location) (n : Node) (root : l ≠ []) :
    (v.insert l n).node? m = if m = l then some n else v.node? m := by
  by_cases h : m = l
  · subst h
    simp [node?, insert, root]
  · have := node?_erase v l m root
    simp only [h, if_false] at this ⊢
    rw [← this]
    by_cases hm : m = []
    · simp [node?, hm]
    · simp [node?, insert, hm, Ne.symm h]

end Volume
end BackupRotation
