import BackupRotation.Proofs.DeletionOrder
import Mathlib.Data.List.Induction
/-! A store through any run of tasks, down to the single deletions that a pruning or a rotation comes to.
What it holds at any moment is what it held at first, less every backup of the names that are gone. A
name that is gone stays away, and none goes whose deletion was made to fail while it was there. -/
namespace BackupRotation.Store
open Decision (evaluate)

inductive Task where
  | failDeletesOf (id : String)
  | delete (id : String)
  | prune (σ : Schedule) (as : List Artifact)
  | rotate (σ : Schedule) (p : Policy)

def does (s : Store) : Task → Store
  | .failDeletesOf id => s.failDeletesOf id
  | .delete id => (s.delete id).1
  | .prune σ as => (s.pruneIn σ as).1
  | .rotate σ p => (s.applyIn σ p).1

def run (s : Store) (tasks : List Task) : Store := tasks.foldl does s

/-- A task is done in acts, each of which takes effect at once. -/
inductive Act where
  | failDeletesOf (id : String)
  | delete (id : String)
  deriving DecidableEq, Repr

def act (s : Store) : Act → Store
  | .failDeletesOf id => s.failDeletesOf id
  | .delete id => (s.delete id).1

def acted (s : Store) (acts : List Act) : Store := acts.foldl act s

def acts (s : Store) : Task → List Act
  | .failDeletesOf id => [.failDeletesOf id]
  | .delete id => [.delete id]
  | .prune σ as => (σ.order as).map fun a => .delete a.id
  | .rotate σ p => (σ.order (evaluate s.artifacts p).delete).map fun a => .delete a.id

def trace (s : Store) : List Task → List Act
  | [] => []
  | t :: ts => s.acts t ++ (s.does t).trace ts

section Traces
variable {s : Store}

theorem actedAppend (s : Store) (xs ys : List Act) : s.acted (xs ++ ys) = (s.acted xs).acted ys :=
  List.foldl_append

theorem deleteAllActed (s : Store) (as : List Artifact) :
    (s.deleteAll as).1 = s.acted (as.map fun a => .delete a.id) := by
  induction as generalizing s with
  | nil => rfl
  | cons a as ih => exact ih (s.delete a.id).1

theorem doesActed (s : Store) (t : Task) : s.does t = s.acted (s.acts t) := by
  cases t with
  | failDeletesOf id => rfl
  | delete id => rfl
  | prune σ as => exact deleteAllActed s (σ.order as)
  | rotate σ p => exact deleteAllActed s (σ.order (evaluate s.artifacts p).delete)

theorem tracedRun (s : Store) (tasks : List Task) : s.acted (s.trace tasks) = s.run tasks := by
  induction tasks generalizing s with
  | nil => rfl
  | cons t ts ih => rw [trace, actedAppend, ← doesActed, ih, run, run, List.foldl_cons]

end Traces

section Acts
variable {s : Store} {id : String}

theorem filterByName (holds : String → Prop) [DecidablePred holds] (as : List Artifact) :
    let left := as.filter fun a => holds a.id
    left = as.filter fun a => a.id ∈ left.map Artifact.id := by
  intro left
  refine List.filter_congr fun a member => decide_eq_decide.mpr ?_
  simp only [left, List.mem_map, List.mem_filter, decide_eq_true_eq]
  constructor
  · exact fun stays => ⟨a, ⟨member, stays⟩, rfl⟩
  · rintro ⟨b, ⟨_, stays⟩, same⟩
    exact same ▸ stays

theorem actWithout (s : Store) (x : Act) :
    (s.act x).artifacts = s.artifacts.filter fun a => a.id ∈ (s.act x).ids := by
  cases x with
  | failDeletesOf id =>
    refine (List.filter_eq_self.mpr fun a member => decide_eq_true ?_).symm
    exact List.mem_map_of_mem member
  | delete id =>
    simp only [act, ids, deleteLeft]
    exact filterByName (fun name => name ∈ s.failing ∨ name ≠ id) s.artifacts

theorem actIds (s : Store) (x : Act) : ∀ id ∈ (s.act x).ids, id ∈ s.ids := by
  intro id member
  rw [ids, actWithout] at member
  exact (List.filter_sublist.map Artifact.id).subset member

theorem actedWithout (s : Store) (xs : List Act) :
    (s.acted xs).artifacts = s.artifacts.filter fun a => a.id ∈ (s.acted xs).ids := by
  induction xs using List.reverseRecOn with
  | nil =>
    refine (List.filter_eq_self.mpr fun a member => decide_eq_true ?_).symm
    exact List.mem_map_of_mem member
  | append_singleton xs x ih =>
    have last : s.acted (xs ++ [x]) = (s.acted xs).act x := actedAppend s xs [x]
    rw [last, actWithout, ih, List.filter_filter]
    refine List.filter_congr fun a _ => ?_
    have earlier := actIds (s.acted xs) x a.id
    by_cases left : a.id ∈ ((s.acted xs).act x).ids
    · simp [left, earlier left]
    · simp [left]

theorem actedIds (s : Store) (xs : List Act) (gone : id ∉ s.ids) : id ∉ (s.acted xs).ids := by
  intro member
  rw [ids, actedWithout] at member
  exact gone ((List.filter_sublist.map Artifact.id).subset member)

theorem actFailing (x : Act) (failing : id ∈ s.failing) : id ∈ (s.act x).failing := by
  cases x with
  | failDeletesOf other => exact List.mem_cons_of_mem _ failing
  | delete other =>
    rw [act, deleteLeft]
    exact failing

theorem actSpares (x : Act) (failing : id ∈ s.failing) (stored : id ∈ s.ids) :
    id ∈ (s.act x).ids := by
  cases x with
  | failDeletesOf other => exact stored
  | delete other =>
    obtain ⟨a, member, rfl⟩ := List.mem_map.mp stored
    rw [act, deleteLeft]
    exact List.mem_map_of_mem (List.mem_filter.mpr ⟨member, decide_eq_true (.inl failing)⟩)

theorem actedSpares (xs : List Act) (failing : id ∈ s.failing) (stored : id ∈ s.ids) :
    id ∈ (s.acted xs).ids := by
  induction xs generalizing s with
  | nil => exact stored
  | cons x xs ih => exact ih (actFailing x failing) (actSpares x failing stored)

theorem deleteRemoves (s : Store) (id : String) :
    ((s.delete id).2 = .ok () ∧ id ∈ s.ids ∧
      (s.delete id).1.artifacts = s.artifacts.filter fun a => a.id ≠ id) ∨
    ((∃ e, (s.delete id).2 = .error e) ∧ (s.delete id).1 = s) := by
  cases answer : (s.delete id).2 with
  | error e => exact .inr ⟨⟨e, rfl⟩, deleteFailing s id e answer⟩
  | ok u =>
    rw [deleteAnswer] at answer
    split_ifs at answer with failing stored
    refine .inl ⟨rfl, stored, ?_⟩
    simp only [delete, failing, stored, if_false, if_true, without]

theorem absentFails (absent : id ∉ s.ids) : ∃ e, (s.delete id).2 = .error e := by
  rcases deleteRemoves s id with ⟨_, stored, _⟩ | ⟨fails, _⟩
  · exact absurd stored absent
  · exact fails

end Acts

/-- At every moment of a run, inside prunings too. -/
theorem storedTogether (initial : List Artifact) (tasks : List Task) {past rest : List Act}
    (moment : (ofArtifacts initial).trace tasks = past ++ rest) :
    let s := (ofArtifacts initial).acted past
    (rest = [] → s = (ofArtifacts initial).run tasks) ∧
      s.artifacts = initial.filter (fun a => a.id ∈ s.ids) ∧
      (∀ id, ((s.delete id).2 = .ok () ∧ id ∈ s.ids ∧
          (s.delete id).1.artifacts = s.artifacts.filter fun a => a.id ≠ id) ∨
        ((∃ e, (s.delete id).2 = .error e) ∧ (s.delete id).1 = s)) ∧
      (∀ before since id, past = before ++ .failDeletesOf id :: since →
        id ∈ ((ofArtifacts initial).acted before).ids → id ∈ s.ids) ∧
      ∀ before since id, past = before ++ since → id ∉ ((ofArtifacts initial).acted before).ids →
        id ∉ s.ids ∧ ∃ e, (s.delete id).2 = .error e := by
  intro s
  refine ⟨?_, actedWithout _ past, deleteRemoves s, ?_, ?_⟩
  · rintro rfl
    rw [List.append_nil] at moment
    rw [← tracedRun, moment]
  · intro before since id marked stored
    have same : s = (((ofArtifacts initial).acted before).failDeletesOf id).acted since := by
      simp only [s, marked]
      exact actedAppend _ before (.failDeletesOf id :: since)
    rw [same]
    exact actedSpares since List.mem_cons_self stored
  · intro before since id later gone
    have same : s = ((ofArtifacts initial).acted before).acted since := by
      simp only [s, later]
      exact actedAppend _ before since
    have absent : id ∉ s.ids := same ▸ actedIds _ since gone
    exact ⟨absent, absentFails absent⟩

theorem storedTogetherInside :
    let initial : List Artifact := [⟨"a", 1, ⟨0, 0, by decide⟩⟩, ⟨"b", 2, ⟨60, 0, by decide⟩⟩,
      ⟨"a", 3, ⟨120, 0, by decide⟩⟩, ⟨"c", 4, ⟨180, 0, by decide⟩⟩]
    let σ : Schedule := ⟨List.reverse, List.reverse_perm⟩
    let tasks : List Task := [.failDeletesOf "b", .prune σ (initial ++ initial), .rotate σ (.simple 0)]
    let past := [.failDeletesOf "b", .delete "c", .delete "a"]
    let s := (ofArtifacts initial).acted past
    (∃ rest, (ofArtifacts initial).trace tasks = past ++ rest) ∧ s.ids = ["b"] ∧
      ∃ e, (s.delete "a").2 = .error e := by
  intro initial σ tasks past s
  have moment : (ofArtifacts initial).trace tasks = past ++ ((ofArtifacts initial).trace tasks).drop 3 := by
    decide +kernel
  obtain ⟨_, _, _, _, gone⟩ := storedTogether initial tasks moment
  refine ⟨⟨_, moment⟩, by decide +kernel, ?_⟩
  exact (gone past [] "a" rfl (by decide +kernel)).2

end BackupRotation.Store
