import BackupRotation.BackupDirectory
import Mathlib.Data.List.Basic
/-! A bare file name joined to a directory is one more step behind the directory's steps. -/
namespace BackupRotation
namespace BackupDirectory
open Volume (steps route origin endsInSlash)

variable {dir name : String}

def BareName (name : String) : Prop :=
  (name ≠ "" ∧ name ≠ "." ∧ name ≠ "..") ∧ '/' ∉ name.toList

instance (name) : Decidable (BareName name) := by unfold BareName; infer_instance

theorem bareFileName (accepted : isFileName name) : BareName name := by
  simp only [isFileName, Bool.and_eq_true, decide_eq_true_eq, List.all_eq_true] at accepted
  refine ⟨⟨accepted.1.1.1, accepted.1.1.2, accepted.1.2⟩, ?_⟩
  intro slash
  simpa using accepted.2 '/' slash

theorem bareRelative (bare : BareName name) : Path.isAbsolute name = false := by
  rw [Path.isAbsolute, Bool.eq_false_iff]
  intro absolute
  exact bare.2 (List.mem_of_head? (by simpa using absolute))

theorem joinInjective {other : String} (bare : BareName name) (bare' : BareName other)
    (same : Path.join dir name = Path.join dir other) : name = other := by
  simp only [Path.join, bareRelative bare, bareRelative bare', Bool.false_or] at same
  split at same
  · exact same
  · split at same
    · exact (String.append_right_inj _).mp same
    · exact (String.append_right_inj _).mp same

theorem joinFile (bare : BareName name) (some : dir ≠ "") :
    ∃ before, (Path.join dir name).toList = before ++ '/' :: name.toList ∧
      (dir.toList = before ++ ['/'] ∨ dir.toList = before ∧ endsInSlash dir = false) := by
  have relative := bareRelative bare
  have filled : dir.isEmpty = false := by
    rw [Bool.eq_false_iff]
    intro empty
    exact some (String.isEmpty_iff.mp empty)
  simp only [Path.join, relative, filled, Bool.or_self, Bool.false_eq_true, if_false]
  by_cases slash : dir.toList.getLast? = Option.some '/'
  · refine ⟨dir.toList.dropLast, ?_, .inl (List.dropLast_append_getLast? _ slash).symm⟩
    rw [if_pos (by simp [slash]), String.toList_append]
    conv_lhs => rw [← List.dropLast_append_getLast? _ slash]
    simp
  · refine ⟨dir.toList, ?_, .inr ⟨rfl, by simp [endsInSlash, slash]⟩⟩
    rw [if_neg (by simp [slash])]
    simp

theorem stepsJoin (bare : BareName name) (some : dir ≠ "") :
    steps (Path.join dir name) = steps dir ++ [name] := by
  obtain ⟨before, joined, place⟩ := joinFile bare some
  have last : name.toList ≠ [] := by simpa using bare.1.1
  have own : steps (Path.join dir name) =
      ((Text.splitAll '/' before).filter fun part => part ≠ []).map String.ofList ++ [name] := by
    simp [steps, joined, Text.splitAll_append, Text.splitAll_whole (bare.2), last]
  rw [own]
  rcases place with cut | whole
  · simp [steps, cut, Text.splitAll_append, Text.splitAll]
  · rw [steps, whole.1]

theorem routeJoin (bare : BareName name) (some : dir ≠ "") :
    route (Path.join dir name) = steps dir ++ [name] := by
  obtain ⟨before, joined, _⟩ := joinFile bare some
  have open' : endsInSlash (Path.join dir name) = false := by
    have last : name.toList ≠ [] := by simpa using bare.1.1
    have ending : (Path.join dir name).toList.getLast? = Option.some (name.toList.getLast last) := by
      rw [joined, List.getLast?_append_of_ne_nil _ (by simp), List.getLast?_cons,
        List.getLast?_eq_getLast_of_ne_nil last]
      rfl
    have other : name.toList.getLast last ≠ '/' := by
      intro slash
      exact bare.2 (slash ▸ List.getLast_mem last)
    simp [endsInSlash, ending, other]
  rw [route, open', stepsJoin bare some]
  rfl

theorem originJoin (here : Location) (bare : BareName name) (some : dir ≠ "") :
    origin here (Path.join dir name) = origin here dir := by
  obtain ⟨before, joined, place⟩ := joinFile bare some
  have same : (Path.join dir name).toList.head? = dir.toList.head? := by
    rw [joined]
    cases before with
    | nil =>
      rcases place with cut | whole
      · simp [cut]
      · exact absurd (by simpa using whole.1) some
    | cons c before =>
      rcases place with cut | whole
      · simp [cut]
      · simp [whole.1]
  simp only [origin, same]

end BackupDirectory
end BackupRotation
