import BackupRotation.Volume.Basic
import Mathlib.Data.List.Basic
import Mathlib.Data.List.Induction
/-! Taking away what lies at given locations, one after the other. -/
namespace BackupRotation
namespace Volume

def clear (v : Volume) (gone : List Location) : Volume := gone.foldl erase v

section Cleared
variable (v : Volume) (gone : List Location)

theorem clearSnoc (l : Location) : v.clear (gone ++ [l]) = (v.clear gone).erase l := by
  simp only [clear, List.foldl_append, List.foldl_cons, List.foldl_nil]

theorem eraseNodes (l : Location) : (v.erase l).nodes = v.nodes.filter fun e => e.1 ≠ l := rfl

theorem clearNodes : (v.clear gone).nodes = v.nodes.filter fun e => e.1 ∉ gone := by
  induction gone using List.reverseRecOn with
  | nil => simp [clear]
  | append_singleton gone l ih =>
    rw [clearSnoc, eraseNodes, ih, List.filter_filter]
    refine List.filter_congr fun e _ => ?_
    simp [and_comm]

theorem nodeClear {gone : List Location} (root : [] ∉ gone) (m : Location) :
    (v.clear gone).node? m = if m ∈ gone then none else v.node? m := by
  induction gone using List.reverseRecOn with
  | nil => simp [clear]
  | append_singleton gone l ih =>
    simp only [List.mem_append, List.mem_singleton, not_or] at root
    rw [clearSnoc, node?_erase _ _ _ (Ne.symm root.2), ih root.1]
    by_cases last : m = l
    · simp [last]
    · simp [last]

theorem absentNodes {l : Location} (root : l ≠ []) (absent : v.node? l = none) :
    ∀ e ∈ v.nodes, e.1 ≠ l := by
  intro e member
  simp only [node?, root, if_false, Option.map_eq_none_iff, List.find?_eq_none] at absent
  simpa using absent e member

theorem sameNodes {v v' : Volume} (same : v.nodes = v'.nodes) : v = v' := by
  cases v
  cases v'
  simpa using same

theorem eraseAbsent {l : Location} (root : l ≠ []) (absent : v.node? l = none) : v.erase l = v := by
  refine sameNodes (List.filter_eq_self.mpr fun e member => ?_)
  simpa using absentNodes v root absent e member

theorem nameInIff {directory l : Location} {name : Octets} :
    nameIn? directory l = some name ↔ l = directory ++ [name] := by
  unfold nameIn?
  constructor
  · intro h
    split at h
    · rename_i last found
      split at h
      · rename_i same
        obtain rfl := Option.some.inj h
        rw [← same]
        exact (List.dropLast_append_getLast? _ found).symm
      · contradiction
    · contradiction
  · intro h
    subst h
    simp

theorem namesClear (directory : Location) : (v.clear gone).names directory =
    (v.names directory).filter fun name => directory ++ [name] ∉ gone := by
  rw [names, clearNodes, names, List.filterMap_filter, List.filter_filterMap]
  refine List.filterMap_congr fun e _ => ?_
  cases h : nameIn? directory e.1 with
  | none => simp
  | some name =>
    obtain found := nameInIff.mp h
    by_cases left : directory ++ [name] ∈ gone
    · simp [found, left, Option.filter_some]
    · simp [found, left, Option.filter_some]

end Cleared

end Volume
end BackupRotation
