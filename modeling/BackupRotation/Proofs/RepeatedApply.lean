import BackupRotation.Proofs.PartialDeletion
import BackupRotation.Proofs.Schedules
/-! Applying one policy to a store again and again, while more and more deletions are made to fail.
What is kept is settled by the first decision; what is deleted is gone at the first time of asking,
unless its deletion was made to fail before. -/
namespace BackupRotation.Store
open Decision (evaluate)

inductive Step where
  | failDeletesOf (id : String)
  | apply (σ : Schedule)

def step (p : Policy) (s : Store) : Step → Store
  | .failDeletesOf id => s.failDeletesOf id
  | .apply σ => (s.applyIn σ p).1

def after (p : Policy) (s : Store) (steps : List Step) : Store := steps.foldl (step p) s

/-- The names whose deletion went through in the course of the steps. -/
def removals (p : Policy) (s : Store) : List Step → List String
  | [] => []
  | .failDeletesOf id :: steps => removals p (s.failDeletesOf id) steps
  | .apply σ :: steps => (s.applyIn σ p).2.2.deleted ++ removals p (s.applyIn σ p).1 steps

/-- Deletions of the name were made to fail at a time when none of them had gone through. -/
def FailedInTime (p : Policy) (s : Store) (steps : List Step) (id : String) : Prop :=
  id ∈ s.failing ∨ ∃ before rest, steps = before ++ .failDeletesOf id :: rest ∧ id ∉ removals p s before

variable {p : Policy} {s : Store} {id : String}

theorem memDeleted : id ∈ (s.apply p).2.2.deleted ↔
    id ∈ (evaluate s.artifacts p).delete.map Artifact.id ∧ id ∉ s.failing := by
  have pruned : id ∈ (s.apply p).2.2.deleted ↔ _ :=
    memPruned (Decision.deleteIdsNodup s.artifacts p)
  refine pruned.trans (and_congr_right fun deleted => and_iff_left ?_)
  obtain ⟨a, member, rfl⟩ := List.mem_map.mp deleted
  have stored := (Artifact.firstsSublist s.artifacts).subset (Decision.memDelete.mp member).1
  exact List.mem_map.mpr ⟨a, stored, rfl⟩

theorem applyLeft (p : Policy) (s : Store) : (s.apply p).1 =
    { s with artifacts := Decision.without {id | id ∈ (s.apply p).2.2.deleted} s.artifacts } := by
  have left : (s.apply p).1 = (s.deleteAll (evaluate s.artifacts p).delete).1 := rfl
  rw [left, deleteAllLeft]
  congr 1
  refine List.filter_congr fun a _ => decide_eq_decide.mpr ?_
  rw [Set.mem_ofPred_eq, memDeleted]
  tauto

theorem keptUndeleted {a : Artifact} (kept : a ∈ (evaluate s.artifacts p).keep) :
    a.id ∉ (s.apply p).2.2.deleted := by
  intro deleted
  obtain ⟨d, member, same⟩ := List.mem_map.mp (memDeleted.mp deleted).1
  exact Decision.decidedApart kept member same

theorem applyKeeps (p : Policy) (s : Store) :
    (evaluate (s.apply p).1.artifacts p).keep = (evaluate s.artifacts p).keep := by
  rw [applyLeft]
  exact Decision.keepWithout fun a kept => keptUndeleted kept

theorem afterWithout (p : Policy) (s : Store) (steps : List Step) :
    (after p s steps).artifacts = Decision.without {id | id ∈ removals p s steps} s.artifacts := by
  induction steps generalizing s with
  | nil => simp [after, removals, Decision.without]
  | cons first steps ih =>
    cases first with
    | failDeletesOf id => exact ih (s.failDeletesOf id)
    | apply σ =>
      have left : after p s (.apply σ :: steps) = after p (s.apply p).1 steps := by
        rw [after, List.foldl_cons, step, applyInAnyOrder, after]
      have now : (s.apply p).1.artifacts =
          Decision.without {id | id ∈ (s.apply p).2.2.deleted} s.artifacts :=
        congrArg Store.artifacts (applyLeft p s)
      rw [left, ih, now, removals, applyInAnyOrder]
      refine List.filter_filter.trans (List.filter_congr fun a _ => ?_)
      simp [Bool.and_comm]

theorem removalsSpare {a : Artifact} (kept : a ∈ (evaluate s.artifacts p).keep) (steps : List Step) :
    a.id ∉ removals p s steps := by
  -- what an apply leaves has the same backups to keep, so the steps after it spare them as well
  induction steps generalizing s with
  | nil => simp [removals]
  | cons first steps ih =>
    cases first with
    | failDeletesOf id => exact ih kept
    | apply σ =>
      rw [removals, applyInAnyOrder, List.mem_append]
      rintro (now | later)
      · exact keptUndeleted kept now
      · exact ih (applyKeeps p s ▸ kept) later

theorem removalsAppend (p : Policy) (s : Store) (xs ys : List Step) :
    removals p s (xs ++ ys) = removals p s xs ++ removals p (after p s xs) ys := by
  induction xs generalizing s with
  | nil => rfl
  | cons first xs ih =>
    cases first with
    | failDeletesOf id => exact ih (s.failDeletesOf id)
    | apply σ => simp only [List.cons_append, removals, ih, List.append_assoc]; rfl

theorem afterFailing (p : Policy) (s : Store) (steps : List Step) :
    id ∈ (after p s steps).failing ↔ id ∈ s.failing ∨ .failDeletesOf id ∈ steps := by
  induction steps generalizing s with
  | nil => simp [after]
  | cons first steps ih =>
    refine (ih (step p s first)).trans ?_
    cases first with
    | failDeletesOf other => simp [step, failDeletesOf, or_assoc, or_left_comm]
    | apply σ => simp [step, applyInAnyOrder, applyLeft]

theorem failingUnremoved (failing : id ∈ s.failing) (steps : List Step) : id ∉ removals p s steps := by
  induction steps generalizing s with
  | nil => simp [removals]
  | cons first steps ih =>
    cases first with
    | failDeletesOf other => exact ih (List.mem_cons_of_mem _ failing)
    | apply σ =>
      have failing' : id ∈ (s.apply p).1.failing := by
        rw [applyLeft]
        exact failing
      rw [removals, applyInAnyOrder, List.mem_append]
      rintro (now | later)
      · exact (memDeleted.mp now).2 failing
      · exact ih failing' later

theorem failedInTimeUnremoved {steps : List Step} (failed : FailedInTime p s steps id) :
    id ∉ removals p s steps := by
  rcases failed with failing | ⟨before, rest, rfl, unremoved⟩
  · exact failingUnremoved failing steps
  · rw [removalsAppend, List.mem_append]
    rintro (now | later)
    · exact unremoved now
    · have failing : id ∈ ((after p s before).failDeletesOf id).failing := List.mem_cons_self
      exact failingUnremoved failing rest later

theorem afterApply (p : Policy) (s : Store) (steps : List Step) (σ : Schedule) :
    after p s (steps ++ [.apply σ]) = ((after p s steps).apply p).1 := by
  rw [after, List.foldl_append]
  exact congrArg Prod.fst (applyInAnyOrder _ σ p)

theorem removalsApply (p : Policy) (s : Store) (steps : List Step) (σ : Schedule) :
    removals p s (steps ++ [.apply σ]) =
      removals p s steps ++ ((after p s steps).apply p).2.2.deleted := by
  rw [removalsAppend, removals, removals, List.append_nil, applyInAnyOrder]

theorem keepAfter (p : Policy) (s : Store) (steps : List Step) :
    (evaluate (after p s steps).artifacts p).keep = (evaluate s.artifacts p).keep := by
  rw [afterWithout]
  exact Decision.keepWithout fun a kept => removalsSpare kept steps

theorem deleteAfter (p : Policy) (s : Store) (steps : List Step) :
    (evaluate (after p s steps).artifacts p).delete =
      Decision.without {id | id ∈ removals p s steps} (evaluate s.artifacts p).delete := by
  rw [afterWithout]
  exact Decision.deleteWithout fun a kept => removalsSpare kept steps

/-- A backup that an apply leaves was to be kept, or had its deletion made to fail while it was still
there. -/
theorem applyLeaves {a : Artifact} (steps : List Step) (σ : Schedule) (stored : a ∈ s.artifacts)
    (unremoved : a.id ∉ removals p s (steps ++ [.apply σ])) :
    a.id ∈ (evaluate s.artifacts p).keep.map Artifact.id ∨
      FailedInTime p s (steps ++ [.apply σ]) a.id := by
  rw [removalsApply, List.mem_append, not_or] at unremoved
  obtain ⟨earlier, now⟩ := unremoved
  have still : a ∈ (after p s steps).artifacts := by
    rw [afterWithout]
    exact Decision.memWithout.mpr ⟨stored, earlier⟩
  rcases Decision.decidedNames p still with kept | deleted
  · exact .inl (keepAfter p s steps ▸ kept)
  · have failing : a.id ∈ (after p s steps).failing := by
      by_contra willing
      exact now (memDeleted.mpr ⟨deleted, willing⟩)
    rcases (afterFailing p s steps).mp failing with failing | marked
    · exact .inr (.inl failing)
    · obtain ⟨before, rest, rfl⟩ := List.append_of_mem marked
      refine .inr (.inr ⟨before, rest ++ [.apply σ], by simp, fun removed => earlier ?_⟩)
      rw [removalsAppend]
      exact List.mem_append_left _ removed

/-- Once every deletion has gone through there is never anything to delete again. -/
theorem settled (willing : ∀ a ∈ (evaluate s.artifacts p).delete, a.id ∉ s.failing)
    (more : List Step) : (evaluate (after p (s.apply p).1 more).artifacts p).delete = [] := by
  have empty : (evaluate (s.apply p).1.artifacts p).delete = [] := by
    rw [applyLeft, Decision.deleteWithout fun a kept => keptUndeleted kept]
    refine List.filter_eq_nil_iff.mpr fun a member stays => ?_
    exact of_decide_eq_true stays (memDeleted.mpr ⟨List.mem_map_of_mem member, willing a member⟩)
  rw [deleteAfter, empty]
  rfl

open Classical in
/-- An apply at the end of any steps decides to keep what the first decision keeps. Nothing kept was
touched before it; what it leaves is kept or had its deletion made to fail in time; and if nothing it
deletes is made to fail, no later apply finds anything to delete. -/
theorem appliesConverge (p : Policy) (s : Store) (steps : List Step) (σ : Schedule) :
    let kept := (evaluate s.artifacts p).keep.map Artifact.id
    let u := after p s steps
    let t := (u.applyIn σ p).1
    let decided := (u.applyIn σ p).2.1
    decided.keep = (evaluate s.artifacts p).keep ∧
      u.artifacts.filter (·.id ∈ kept) = s.artifacts.filter (·.id ∈ kept) ∧
      t.artifacts = s.artifacts.filter
        (fun a => a.id ∈ kept ∨ FailedInTime p s (steps ++ [.apply σ]) a.id) ∧
      ((∀ a ∈ decided.delete, a.id ∉ u.failing) →
        ∀ more τ, ((after p t more).applyIn τ p).2.1.delete = []) := by
  intro kept u
  rw [applyInAnyOrder]
  have spare (steps : List Step) (id : String) (member : id ∈ kept) : id ∉ removals p s steps := by
    obtain ⟨a, inside, rfl⟩ := List.mem_map.mp member
    exact removalsSpare inside steps
  have left : (u.apply p).1.artifacts =
      Decision.without {id | id ∈ removals p s (steps ++ [.apply σ])} s.artifacts := by
    rw [← afterApply p s steps σ, afterWithout]
  refine ⟨keepAfter p s steps, ?_, ?_, fun willing more _ => settled willing more⟩
  · have untouched : u.artifacts = Decision.without {id | id ∈ removals p s steps} s.artifacts :=
      afterWithout p s steps
    rw [untouched]
    refine List.filter_filter.trans (List.filter_congr fun a _ => ?_)
    by_cases member : a.id ∈ kept
    · simp [member, spare steps a.id member]
    · simp [member]
  · refine left.trans (List.filter_congr fun a stored => decide_eq_decide.mpr ⟨?_, ?_⟩)
    · exact applyLeaves steps σ stored
    · rintro (member | failed)
      · exact spare _ a.id member
      · exact failedInTimeUnremoved failed

theorem appliesConvergeReversed :
    let p := Policy.smart 1 0 0 0
    let s : Store := ⟨[⟨"a", 1, ⟨600, 0, by decide⟩⟩, ⟨"b", 2, ⟨60, 0, by decide⟩⟩,
      ⟨"c", 3, ⟨0, 0, by decide⟩⟩, ⟨"b", 4, ⟨1200, 0, by decide⟩⟩], ["d"]⟩
    let σ : Schedule := ⟨List.reverse, List.reverse_perm⟩
    let steps := [.failDeletesOf "a"]
    (∀ a ∈ ((after p s steps).applyIn σ p).2.1.delete, a.id ∉ (after p s steps).failing) ∧
      ∀ more τ, ((after p ((after p s steps).applyIn σ p).1 more).applyIn τ p).2.1.delete = [] := by
  intro p s σ steps
  have willing : ∀ a ∈ ((after p s steps).applyIn σ p).2.1.delete,
      a.id ∉ (after p s steps).failing := by decide +kernel
  exact ⟨willing, (appliesConverge p s steps σ).2.2.2 willing⟩

end BackupRotation.Store
