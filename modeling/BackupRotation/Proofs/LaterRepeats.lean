import BackupRotation.Event
/-! Later backups of a name that came before. They are passed over wherever they stand: a decision is as it would
be without them, and all that is left of one is a warning. -/
namespace BackupRotation

namespace Artifact

/-- The names that have come up once the list has been gone through. -/
def seenAfter (seen : List String) : List Artifact → List String
  | [] => seen
  | a :: as => seenAfter (if a.id ∈ seen then seen else a.id :: seen) as

variable {seen : List String} {xs ys : List Artifact} {a : Artifact}

theorem memSeenAfter {id : String} : id ∈ seenAfter seen xs ↔ id ∈ seen ∨ id ∈ xs.map Artifact.id := by
  induction xs generalizing seen with
  | nil => simp [seenAfter]
  | cons x xs ih =>
    rw [seenAfter, ih, List.map_cons, List.mem_cons]
    split
    · rename_i old
      constructor
      · rintro (before | rest)
        · exact .inl before
        · exact .inr (.inr rest)
      · rintro (before | rfl | rest)
        · exact .inl before
        · exact .inl old
        · exact .inr rest
    · rw [List.mem_cons, or_left_comm, or_assoc]

theorem firstsAfterAppend : firstsAfter seen (xs ++ ys) =
    firstsAfter seen xs ++ firstsAfter (seenAfter seen xs) ys := by
  induction xs generalizing seen with
  | nil => rfl
  | cons x xs ih =>
    simp only [List.cons_append, firstsAfter, seenAfter]
    split
    · exact ih
    · rw [ih, List.cons_append]

theorem repeatsAfterAppend : repeatsAfter seen (xs ++ ys) =
    repeatsAfter seen xs ++ repeatsAfter (seenAfter seen xs) ys := by
  induction xs generalizing seen with
  | nil => rfl
  | cons x xs ih =>
    simp only [List.cons_append, repeatsAfter, seenAfter]
    split
    · rw [ih, List.cons_append]
    · exact ih

section Named
variable (named : a.id ∈ xs.map Artifact.id)
include named

theorem firstsPassOver (ys : List Artifact) : firsts (xs ++ a :: ys) = firsts (xs ++ ys) := by
  have old : a.id ∈ seenAfter [] xs := memSeenAfter.mpr (.inr named)
  rw [firsts, firsts, firstsAfterAppend, firstsAfterAppend, firstsAfter, if_pos old]

theorem repeatsTell (ys : List Artifact) : ∃ before after,
    repeats (xs ++ ys) = before ++ after ∧ repeats (xs ++ a :: ys) = before ++ a.id :: after := by
  have old : a.id ∈ seenAfter [] xs := memSeenAfter.mpr (.inr named)
  refine ⟨repeatsAfter [] xs, repeatsAfter (seenAfter [] xs) ys, repeatsAfterAppend, ?_⟩
  rw [repeats, repeatsAfterAppend, repeatsAfter, if_pos old]

end Named
end Artifact

namespace Decision
open Artifact

/-- A backup whose name came before changes no decision, whatever its size and time. It adds one warning. -/
theorem laterRepeatIdle (xs ys : List Artifact) {a : Artifact} (named : a.id ∈ xs.map Artifact.id) (p : Policy) :
    evaluate (xs ++ a :: ys) p = evaluate (xs ++ ys) p ∧
      explain (xs ++ a :: ys) p = explain (xs ++ ys) p ∧
      ∃ before after, events (xs ++ ys) p = before ++ after ∧
        events (xs ++ a :: ys) p = before ++ .duplicateIgnored a.id :: after := by
  have firsts := firstsPassOver named ys
  have verdicts : explain (xs ++ a :: ys) p = explain (xs ++ ys) p := by
    simp only [explain, firsts]
  refine ⟨congrArg (fun vs => partition (present p vs)) verdicts, verdicts, ?_⟩
  obtain ⟨before, after, without, with'⟩ := repeatsTell named ys
  simp only [events, firsts, without, with', List.map_append, List.map_cons, List.append_assoc,
    List.cons_append]
  exact ⟨_, _, rfl, rfl⟩

theorem laterRepeatIdleNewest :
    let xs : List Artifact := [⟨"a", 1, ⟨0, 0, by decide⟩⟩, ⟨"b", 2, ⟨90000, 0, by decide⟩⟩]
    let ys : List Artifact := [⟨"c", 3, ⟨90000, 0, by decide⟩⟩]
    let a : Artifact := ⟨"a", 9, ⟨99959, 1500000000, by decide⟩⟩
    a.id ∈ xs.map Artifact.id ∧ (∀ b ∈ xs ++ ys, b.created < a.created) ∧
      evaluate (xs ++ a :: ys) (.smart 2 0 0 0) = evaluate (xs ++ ys) (.smart 2 0 0 0) := by
  intro xs ys a
  have named : a.id ∈ xs.map Artifact.id := by decide
  exact ⟨named, by decide, (laterRepeatIdle xs ys named _).1⟩

end Decision
end BackupRotation
