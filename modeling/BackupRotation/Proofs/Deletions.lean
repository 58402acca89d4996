import BackupRotation.Proofs.Courses
import BackupRotation.Proofs.Survival
/-! Deleting backups in a world that may refuse any of the deletions. Each deletion is asked for once, in
the order of the request, unless its name is no file name; what goes is what the report says, and
nothing else. -/
namespace BackupRotation.BackupDirectory
open Volume
open Program (asksRequest courseBind courseDone courseRemove courseSpares readsLeave readsSpare
  readsTellAll)
open PruneReport (deletedOf)

/-- The paths of the backups whose names are file names. -/
def paths (dir : String) (ds : List Artifact) : List String :=
  (ds.filter fun d => isFileName d.id).map fun d => Path.join dir d.id

/-- What a request to delete `ds` came to, when `gone` were deleted before. -/
structure Deleted (v : Volume) (directory : Location) (gone ds : List Artifact) (os : List Outcome)
    (w after : World) : Prop where
  requested : os.map Outcome.artifact = ds
  misnamed : ∀ o ∈ os, isFileName o.artifact.id = false →
    o.failure = some (.invalidIdentifier o.artifact.id)
  left : after.volume = v.clear (places directory (gone ++ deletedOf os))
  start : after.here = w.here
  silent : after.output = w.output

section Requests
variable {v : Volume} {here directory : Location} {dir : String} {gone ds : List Artifact}
  {w after : World} {tried : List String}

theorem outcomeArtifact (d : Artifact) (result : Except StorageError Unit) :
    (Outcome.of d result).artifact = d := by
  cases result with
  | ok u => rfl
  | error e => rfl

theorem deletedCons (o : Outcome) (os : List Outcome) :
    deletedOf (o :: os) = deletedOf [o] ++ deletedOf os := by
  simp only [deletedOf, ← List.map_append, ← List.filter_append, List.singleton_append]

theorem pathsCons (dir : String) (d : Artifact) (ds : List Artifact) :
    paths dir (d :: ds) = paths dir [d] ++ paths dir ds := by
  simp only [paths, ← List.map_append, ← List.filter_append, List.singleton_append]

theorem pathsNodup (distinct : (ds.map Artifact.id).Nodup) : (paths dir ds).Nodup := by
  have names : ((ds.filter fun d => isFileName d.id).map Artifact.id).Nodup :=
    distinct.sublist (List.filter_sublist.map Artifact.id)
  have joined : paths dir ds =
      ((ds.filter fun d => isFileName d.id).map Artifact.id).map (Path.join dir) := by
    simp [paths]
  rw [joined]
  refine List.Nodup.map_on (fun id inside id' inside' same => ?_) names
  simp only [List.mem_map, List.mem_filter] at inside inside'
  obtain ⟨d, ⟨_, bare⟩, rfl⟩ := inside
  obtain ⟨d', ⟨_, bare'⟩, rfl⟩ := inside'
  exact joinInjective (bareFileName bare) (bareFileName bare') same

/-- What is reported about a removal, by its answer. -/
def reportRemoval (id path : String) : Except FileError Unit → Program (Except StorageError Unit)
  | .ok () => do
    Program.tell (.deleted path)
    return .ok ()
  | .error .noEntry => return .error (.notFound id)
  | .error e => return .error (.inaccessible path e)

theorem deleteReports {id : String} (bare : isFileName id) : delete dir id =
    Program.removeFile (Path.join dir id) >>= reportRemoval id (Path.join dir id) := by
  simp only [delete, bare, if_true]
  refine congrArg _ (funext fun answer => ?_)
  cases answer with
  | ok u => rfl
  | error e => cases e <;> rfl

theorem reportCourse {id path : String} {answer : Except FileError Unit}
    {result : Except StorageError Unit}
    (course : (reportRemoval id path answer).Course w tried result after) :
    tried = [] ∧ (result = .ok () ↔ answer = .ok ()) ∧
      ∃ es, after = { w with events := w.events ++ es } := by
  cases answer with
  | ok u =>
    obtain ⟨first, rest, told, between, rfl, event, ended⟩ := courseBind course
    obtain ⟨rfl, ran⟩ := courseSpares (asksRequest rfl) event
    obtain ⟨rfl, rfl, rfl⟩ := courseDone ended
    exact ⟨rfl, by simp, [.deleted path], (congrArg Prod.snd ran).symm⟩
  | error e =>
    have refused : ∃ cause, reportRemoval id path (.error e) = pure (.error cause) := by
      cases e <;> exact ⟨_, rfl⟩
    obtain ⟨cause, same⟩ := refused
    rw [same] at course
    obtain ⟨rfl, rfl, rfl⟩ := courseDone course
    exact ⟨rfl, by simp, [], by simp⟩

theorem pruneDeletes {report : PruneReport} (course : (prune dir ds).Course w tried report after) :
    ∃ os last, (deleteAll dir ds).Course w tried os last ∧ report = .ofOutcomes os ∧
      ∃ es, after = { last with events := last.events ++ es } := by
  obtain ⟨first, rest, os, last, rfl, deletions, ended⟩ := courseBind course
  obtain ⟨second, third, told, told', rfl, events, answered⟩ := courseBind ended
  have telling := readsTellAll (PruneReport.ofOutcomes os).events
  obtain ⟨rfl, ran⟩ := courseSpares (readsSpare telling) events
  obtain ⟨rfl, rfl, rfl⟩ := courseDone answered
  obtain ⟨es, left⟩ := readsLeave (w := last) telling
  refine ⟨os, last, by simpa using deletions, rfl, es, ?_⟩
  rw [← left, ran]

variable (opened : v.locate here .node dir = .ok directory)
  (isDirectory : v.node? directory = some .directory)
include opened isDirectory

theorem deleteCourse {d : Artifact} {result : Except StorageError Unit}
    (deletable : Deletable v directory dir (gone ++ [d]))
    (volume : w.volume = v.clear (places directory gone)) (start : w.here = here)
    (course : (delete dir d.id).Course w tried result after) :
    tried = paths dir [d] ∧ Deleted v directory gone [d] [Outcome.of d result] w after := by
  by_cases bare : isFileName d.id
  · rw [deleteReports bare] at course
    obtain ⟨first, rest, answer, between, rfl, asked, reported⟩ := courseBind course
    obtain ⟨rfl, removal⟩ := courseRemove asked
    obtain ⟨rfl, good, es, rfl⟩ := reportCourse reported
    refine ⟨by simp [paths, bare], ?_⟩
    have named : [Outcome.of d result].map Outcome.artifact = [d] := by simp [outcomeArtifact]
    rcases removal with ⟨rfl, v', removed, rfl⟩ | ⟨⟨e, rfl⟩, rfl⟩
    · obtain rfl := good.mpr rfl
      refine ⟨named, by simp [outcomeArtifact, bare], ?_, rfl, rfl⟩
      have before : Deletable v directory dir gone :=
        fun a member => deletable a (List.mem_append_left _ member)
      obtain ⟨entry, checked⟩ :=
        deletable d (List.mem_append_right _ (List.mem_singleton_self d)) bare
      rw [volume, start, removePlace opened isDirectory before bare entry checked] at removed
      split at removed
      · cases removed
      · have left : deletedOf [Outcome.of d (.ok ())] = [d] := rfl
        rw [left, placesSnoc, if_pos bare]
        exact (Except.ok.inj removed).symm
    · have failed : result ≠ .ok () := fun ok => by simpa using good.mp ok
      have none' : deletedOf [Outcome.of d result] = [] := by
        cases result with
        | ok u => exact absurd rfl failed
        | error cause => rfl
      refine ⟨named, by simp [outcomeArtifact, bare], ?_, rfl, rfl⟩
      rw [none', List.append_nil]
      exact volume
  · simp only [delete, bare, Bool.false_eq_true, if_false] at course
    obtain ⟨rfl, rfl, rfl⟩ := courseDone course
    refine ⟨by simp [paths, bare], ?_, ?_, ?_, rfl, rfl⟩
    · simp [outcomeArtifact]
    · simp [Outcome.of]
    · simp [Outcome.of, deletedOf, volume]

theorem deleteMoreCourse {os : List Outcome} (deletable : Deletable v directory dir (gone ++ ds))
    (volume : w.volume = v.clear (places directory gone)) (start : w.here = here)
    (course : (deleteAll dir ds).Course w tried os after) :
    tried = paths dir ds ∧ Deleted v directory gone ds os w after := by
  induction ds generalizing gone w tried os with
  | nil =>
    obtain ⟨rfl, rfl, rfl⟩ := courseDone course
    exact ⟨rfl, rfl, by simp, by simpa [deletedOf] using volume, rfl, rfl⟩
  | cons d ds ih =>
    obtain ⟨first, rest, result, between, rfl, one, others⟩ := courseBind course
    obtain ⟨second, third, outcomes, last, rfl, more, ended⟩ := courseBind others
    obtain ⟨rfl, rfl, rfl⟩ := courseDone ended
    have now : Deletable v directory dir (gone ++ [d]) := by
      intro a member
      refine deletable a ?_
      simp only [List.mem_append, List.mem_cons] at member ⊢
      tauto
    obtain ⟨rfl, deleted⟩ := deleteCourse opened isDirectory now volume start one
    -- the others start from what this one left, and a deletion that failed left everything
    have later : Deletable v directory dir (gone ++ deletedOf [Outcome.of d result] ++ ds) := by
      intro a member
      refine deletable a ?_
      have one : ∀ a ∈ deletedOf [Outcome.of d result], a = d := by
        cases result <;> simp [deletedOf, Outcome.of]
      simp only [List.mem_append, List.mem_cons] at member ⊢
      rcases member with (before | now) | after
      · exact .inl before
      · exact .inr (.inl (one a now))
      · exact .inr (.inr after)
    obtain ⟨rfl, remaining⟩ := ih later deleted.left (deleted.start.trans start) more
    refine ⟨by rw [List.append_nil, pathsCons dir d ds], ?_, ?_, ?_, ?_, ?_⟩
    · rw [List.map_cons, remaining.requested, outcomeArtifact]
    · exact List.forall_mem_cons.mpr ⟨List.forall_mem_singleton.mp deleted.misnamed, remaining.misnamed⟩
    · rw [remaining.left, deletedCons (Outcome.of d result) outcomes, List.append_assoc]
    · exact remaining.start.trans deleted.start
    · exact remaining.silent.trans deleted.silent

theorem deleteAllCourse {os : List Outcome} (course : (deleteAll dir ds).Course w tried os after)
    (deletable : Deletable v directory dir ds) (volume : w.volume = v) (start : w.here = here) :
    tried = paths dir ds ∧ Deleted v directory [] ds os w after := by
  have whole : Deletable v directory dir ([] ++ ds) := deletable
  exact deleteMoreCourse opened isDirectory whole volume start course

end Requests
end BackupRotation.BackupDirectory
