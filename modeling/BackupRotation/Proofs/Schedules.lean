import BackupRotation.Store
import BackupRotation.Proofs.Partition
/-! Deletions of a store that take effect in any order. What each of them answers and what is left in
the end depend on the store before and on what was requested, not on the order. -/
namespace BackupRotation

/-- An order for the deletions of each request. With several of them in flight it may differ from the
order of the request. -/
structure Schedule where
  order : List Artifact → List Artifact
  perm : ∀ as, (order as).Perm as

namespace Store
variable {as bs : List Artifact}

theorem deleteLeft (s : Store) (id : String) : (s.delete id).1 =
    { s with artifacts := s.artifacts.filter fun a => a.id ∈ s.failing ∨ a.id ≠ id } := by
  have stay (all : ∀ a ∈ s.artifacts, a.id ∈ s.failing ∨ a.id ≠ id) :
      s = { s with artifacts := s.artifacts.filter fun a => a.id ∈ s.failing ∨ a.id ≠ id } := by
    rw [List.filter_eq_self.mpr fun a member => decide_eq_true (all a member)]
  unfold delete
  split
  · rename_i failing
    refine stay fun a _ => ?_
    by_cases same : a.id = id
    · exact .inl (same ▸ failing)
    · exact .inr same
  · rename_i willing
    split
    · have gone : s.without id = s.artifacts.filter fun a => a.id ∈ s.failing ∨ a.id ≠ id := by
        refine List.filter_congr fun a _ => decide_eq_decide.mpr ?_
        constructor
        · exact .inr
        · rintro (failing | other)
          · exact fun same => willing (same ▸ failing)
          · exact other
      rw [gone]
    · rename_i absent
      exact stay fun a member => .inr fun same => absent (List.mem_map.mpr ⟨a, member, same⟩)

theorem deleteAllLeft (s : Store) (as : List Artifact) : (s.deleteAll as).1 =
    { s with artifacts := s.artifacts.filter fun a =>
        a.id ∈ s.failing ∨ a.id ∉ as.map Artifact.id } := by
  induction as generalizing s with
  | nil => simp [deleteAll]
  | cons a as ih =>
    simp only [deleteAll]
    rw [ih, deleteLeft]
    simp only [List.filter_filter]
    congr 1
    refine List.filter_congr fun b _ => ?_
    rw [← Bool.decide_and, decide_eq_decide, List.map_cons, List.mem_cons]
    tauto

theorem deleteAllPerm (s : Store) (perm : as.Perm bs) : (s.deleteAll as).1 = (s.deleteAll bs).1 := by
  simp only [deleteAllLeft, (perm.map Artifact.id).mem_iff]

/-- What the deletion of a backup comes to, as long as no other deletion takes its name away. -/
def outcome (s : Store) (a : Artifact) : Outcome := .of a (s.delete a.id).2

theorem outcomeArtifact (s : Store) (a : Artifact) : (s.outcome a).artifact = a := by
  unfold outcome Outcome.of
  split <;> rfl

theorem deleteAnswer (s : Store) (id : String) : (s.delete id).2 =
    if id ∈ s.failing then .error (.refused id)
    else if id ∈ s.ids then .ok () else .error (.notFound id) := by
  unfold delete
  split
  · rfl
  · split <;> rfl

theorem outcomeDelete {s : Store} {a b : Artifact} (other : b.id ≠ a.id) :
    (s.delete a.id).1.outcome b = s.outcome b := by
  have stored : b.id ∈ (s.delete a.id).1.ids ↔ b.id ∈ s.ids := by
    simp only [ids, deleteLeft, List.mem_map, List.mem_filter, decide_eq_true_eq]
    constructor
    · intro h
      obtain ⟨c, ⟨member, _⟩, same⟩ := h
      exact ⟨c, member, same⟩
    · intro h
      obtain ⟨c, member, same⟩ := h
      exact ⟨c, ⟨member, .inr (same ▸ other)⟩, same⟩
  have failing : (s.delete a.id).1.failing = s.failing := by rw [deleteLeft]
  simp only [outcome, deleteAnswer, stored, failing]

theorem deleteAllOutcomes (s : Store) (distinct : (as.map Artifact.id).Nodup) :
    (s.deleteAll as).2 = as.map s.outcome := by
  induction as generalizing s with
  | nil => rfl
  | cons a as ih =>
    obtain ⟨new, distinct⟩ := List.nodup_cons.mp distinct
    simp only [deleteAll, List.map_cons, ih _ distinct]
    refine congrArg _ (List.map_congr_left fun b member => outcomeDelete ?_)
    exact fun same => new (List.mem_map.mpr ⟨b, member, same⟩)

theorem outcomeGood (s : Store) (a : Artifact) :
    (s.outcome a).failure = none ↔ a.id ∉ s.failing ∧ a.id ∈ s.ids := by
  rw [outcome, deleteAnswer]
  split
  · rename_i failing
    simp [Outcome.of, failing]
  · rename_i willing
    split
    · rename_i stored
      simp [Outcome.of, willing, stored]
    · rename_i absent
      simp [Outcome.of, absent]

theorem memPruned {s : Store} (distinct : (as.map Artifact.id).Nodup) {id : String} :
    id ∈ (s.prune as).2.deleted ↔ id ∈ as.map Artifact.id ∧ id ∉ s.failing ∧ id ∈ s.ids := by
  simp only [prune, PruneReport.ofOutcomes, PruneReport.deletedOf, deleteAllOutcomes s distinct,
    List.filter_map, List.map_map, List.mem_map, List.mem_filter, Function.comp_apply,
    outcomeArtifact, Option.isNone_iff_eq_none, outcomeGood]
  constructor
  · intro h
    obtain ⟨a, ⟨member, good⟩, rfl⟩ := h
    exact ⟨⟨a, member, rfl⟩, good⟩
  · intro h
    obtain ⟨⟨a, member, rfl⟩, good⟩ := h
    exact ⟨a, ⟨member, good⟩, rfl⟩

/-- The outcomes of the requests in the order of the requests. -/
def inRequestOrder (requests : List Artifact) (outcomes : List Outcome) : List Outcome :=
  requests.filterMap fun a => outcomes.find? fun o => o.artifact = a

theorem outcomeFound (s : Store) {a : Artifact} (member : a ∈ as) :
    (as.map s.outcome).find? (fun o => o.artifact = a) = some (s.outcome a) := by
  induction as with
  | nil => simp at member
  | cons b as ih =>
    by_cases same : b = a
    · simp [outcomeArtifact, same]
    · have rest := (List.mem_cons.mp member).resolve_left (Ne.symm same)
      simp [outcomeArtifact, same, ih rest]

theorem inRequestOrderMap (s : Store) (perm : bs.Perm as) :
    inRequestOrder as (bs.map s.outcome) = as.map s.outcome := by
  have found : ∀ a ∈ as, (bs.map s.outcome).find? (fun o => o.artifact = a) = some (s.outcome a) :=
    fun a member => outcomeFound s (perm.mem_iff.mpr member)
  rw [inRequestOrder, List.filterMap_congr found, List.filterMap_eq_map']

def pruneIn (s : Store) (σ : Schedule) (as : List Artifact) : Store × PruneReport :=
  let (s, outcomes) := s.deleteAll (σ.order as)
  (s, .ofOutcomes (inRequestOrder as outcomes))

theorem pruneInAnyOrder (s : Store) (σ : Schedule) (distinct : (as.map Artifact.id).Nodup) :
    s.pruneIn σ as = s.prune as := by
  have perm := σ.perm as
  have distinct' := ((perm.map Artifact.id).nodup_iff).mpr distinct
  simp only [pruneIn, prune, deleteAllOutcomes s distinct', deleteAllOutcomes s distinct,
    deleteAllPerm s perm, inRequestOrderMap s perm]

def applyIn (s : Store) (σ : Schedule) (p : Policy) : Store × Partition × PruneReport :=
  let decided := Decision.evaluate s.artifacts p
  let (s, report) := s.pruneIn σ decided.delete
  (s, decided, report)

theorem applyInAnyOrder (s : Store) (σ : Schedule) (p : Policy) : s.applyIn σ p = s.apply p := by
  simp only [applyIn, apply, pruneInAnyOrder s σ (Decision.deleteIdsNodup s.artifacts p)]

end Store
end BackupRotation
