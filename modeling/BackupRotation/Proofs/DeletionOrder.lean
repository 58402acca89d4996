import BackupRotation.Proofs.Schedules
/-! Deletions that do not touch one another's names. Each of them goes through or fails by what the
store held before any of them, so the order in which they take effect shows neither in what is left nor
in the report. -/
namespace BackupRotation.Store
open Artifact (fit64? size64? size64?_eq totalSizeSum)

/-- Why a deletion of the name fails, if it does. -/
def refusal? (s : Store) (id : String) : Option StorageError :=
  if id ∈ s.failing then some (.refused id)
  else if id ∈ s.ids then none
  else some (.notFound id)

def granted (s : Store) (as : List Artifact) : List Artifact :=
  as.filter fun a => (s.refusal? a.id).isNone

section Requests
variable {s : Store} {as : List Artifact}

theorem refusalNone {id : String} : s.refusal? id = none ↔ id ∉ s.failing ∧ id ∈ s.ids := by
  unfold refusal?
  split_ifs with failing stored
  · simp [failing]
  · simp [failing, stored]
  · simp [stored]

theorem outcomeRefusal (s : Store) (a : Artifact) : s.outcome a = ⟨a, s.refusal? a.id⟩ := by
  rw [outcome, deleteAnswer, refusal?]
  split_ifs
  · rfl
  · rfl
  · rfl

theorem deletedGranted (s : Store) (as : List Artifact) :
    PruneReport.deletedOf (as.map s.outcome) = s.granted as := by
  rw [PruneReport.deletedOf, List.filter_map, List.map_map]
  have same : Outcome.artifact ∘ s.outcome = id := funext fun a => outcomeArtifact s a
  simp [same, granted, Function.comp_def, outcomeRefusal]

theorem failedRefused (s : Store) (as : List Artifact) :
    PruneReport.failedOf (as.map s.outcome) =
      as.filterMap fun a => (s.refusal? a.id).map fun e => ⟨a.id, e⟩ := by
  simp only [PruneReport.failedOf, List.filterMap_map, Function.comp_def, outcomeRefusal]

theorem refusedNames (s : Store) (as : List Artifact) :
    (PruneReport.failedOf (as.map s.outcome)).map FailedDeletion.id =
      (as.filter fun a => !(s.refusal? a.id).isNone).map Artifact.id := by
  rw [failedRefused, List.map_filterMap]
  induction as with
  | nil => rfl
  | cons a as ih =>
    cases refused : s.refusal? a.id with
    | none => simpa [refused] using ih
    | some e => simpa [refused] using ih

theorem grantedLeft (s : Store) (as : List Artifact) : (s.deleteAll as).1 =
    { s with artifacts := s.artifacts.filter fun a => a.id ∉ (s.granted as).map Artifact.id } := by
  rw [deleteAllLeft]
  congr 1
  refine List.filter_congr fun a member => decide_eq_decide.mpr ?_
  have stored : a.id ∈ s.ids := List.mem_map_of_mem member
  simp only [granted, List.mem_map, List.mem_filter, Option.isNone_iff_eq_none, refusalNone]
  constructor
  · rintro (failing | spared) ⟨b, ⟨requested, willing, _⟩, same⟩
    · exact willing (same ▸ failing)
    · exact spared ⟨b, requested, same⟩
  · intro untouched
    by_contra touched
    rw [not_or, not_not] at touched
    obtain ⟨willing, b, requested, same⟩ := touched
    exact untouched ⟨b, ⟨requested, same ▸ willing, same ▸ stored⟩, same⟩

end Requests

/-- Deletions of distinct names come to the same in every order. What goes through and what fails are
each reported in the order of the request, every request once; the sizes freed add up in 64 bits as long
as they fit there. -/
theorem deletionsCommute (s : Store) (σ : Schedule) {as : List Artifact}
    (distinct : (as.map Artifact.id).Nodup) :
    let report := (s.pruneIn σ as).2
    (s.deleteAll (σ.order as)).2 = (σ.order as).map (fun a => ⟨a, s.refusal? a.id⟩) ∧
      s.pruneIn σ as = s.prune as ∧
      (s.pruneIn σ as).1 = { s with
        artifacts := s.artifacts.filter fun a => a.id ∉ (s.granted as).map Artifact.id } ∧
      report.deleted = (s.granted as).map Artifact.id ∧
      report.failed = as.filterMap (fun a => (s.refusal? a.id).map fun e => ⟨a.id, e⟩) ∧
      (report.deleted ++ report.failed.map FailedDeletion.id).Perm (as.map Artifact.id) ∧
      report.freedSize = ((s.granted as).map fun a => a.size.toNat).sum ∧
      size64? (s.granted as) = fit64? report.freedSize := by
  intro report
  have order := σ.perm as
  have outcomes : (s.deleteAll (σ.order as)).2 = (σ.order as).map s.outcome :=
    deleteAllOutcomes s ((order.map Artifact.id).nodup_iff.mpr distinct)
  have same := pruneInAnyOrder s σ distinct
  have reported : report = .ofOutcomes (as.map s.outcome) := by
    rw [← deleteAllOutcomes s distinct]
    exact congrArg Prod.snd same
  have deleted : report.deleted = (s.granted as).map Artifact.id := by
    rw [reported, PruneReport.ofOutcomes, deletedGranted]
  have freed : report.freedSize = Artifact.totalSize (s.granted as) := by
    rw [reported, PruneReport.ofOutcomes, deletedGranted]
  refine ⟨?_, same, ?_, deleted, ?_, ?_, ?_, ?_⟩
  · rw [outcomes]
    exact List.map_congr_left fun a _ => outcomeRefusal s a
  · rw [same]
    exact grantedLeft s as
  · rw [reported, PruneReport.ofOutcomes, failedRefused]
  · rw [deleted, reported, PruneReport.ofOutcomes, refusedNames, ← List.map_append]
    exact (List.filter_append_perm (fun a => (s.refusal? a.id).isNone) as).map Artifact.id
  · rw [freed, totalSizeSum]
  · rw [freed, size64?_eq]

theorem deletionsCommuteReversed :
    let s : Store := ⟨[⟨"a", 1, ⟨0, 0, by decide⟩⟩, ⟨"b", 2, ⟨0, 0, by decide⟩⟩,
      ⟨"a", 3, ⟨60, 0, by decide⟩⟩], ["b"]⟩
    let as : List Artifact := [⟨"c", 4, ⟨0, 0, by decide⟩⟩, ⟨"a", 5, ⟨0, 0, by decide⟩⟩,
      ⟨"b", 6, ⟨0, 0, by decide⟩⟩]
    let σ : Schedule := ⟨List.reverse, List.reverse_perm⟩
    (as.map Artifact.id).Nodup ∧
      (s.pruneIn σ as).2 = ⟨["a"], [⟨"c", .notFound "c"⟩, ⟨"b", .refused "b"⟩], 5⟩ := by
  intro s as σ
  have distinct : (as.map Artifact.id).Nodup := by decide
  obtain ⟨_, same, _⟩ := deletionsCommute s σ distinct
  refine ⟨distinct, ?_⟩
  rw [same]
  decide +kernel

end BackupRotation.Store
