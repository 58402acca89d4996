import BackupRotation.CommandLine
import BackupRotation.Proofs.Answers
/-! What a pruning changes. Whatever files there are, whatever the flags, and whichever deletions the
world refuses, nothing is gone afterwards but the entries of the directory that the report says were
deleted, and nothing is new. -/
namespace BackupRotation

namespace BackupDirectory
open PruneReport (deletedOf)

/-- An entry that a pruning may delete: a text that names an entry of the directory itself, is neither
hidden nor the name of a file beside a backup, and names no directory. -/
structure Prunable (v : Volume) (directory : Location) (id : String) : Prop where
  bare : BareName id
  visible : id.toList.head? ≠ some '.'
  backup : BackupName.isSidecar id = false
  entry : v.FileEntry directory id

theorem visibleBackup {name : String} (backup : BackupName.isSidecar name = false) :
    name.toList.head? ≠ some '.' := by
  intro hidden
  obtain ⟨rest, start⟩ := List.head?_eq_some_iff.mp hidden
  simp [BackupName.isSidecar, start] at backup

section Reported
variable {v : Volume} {here directory : Location} {dir : String} {as gone ds : List Artifact}
  {os : List Outcome} {w after : World}

theorem deletedNamed (deleted : Deleted v directory gone ds os w after) {d : Artifact}
    (member : d ∈ deletedOf os) : d ∈ ds ∧ isFileName d.id := by
  simp only [deletedOf, List.mem_map, List.mem_filter, Option.isNone_iff_eq_none] at member
  obtain ⟨o, ⟨inside, good⟩, rfl⟩ := member
  refine ⟨deleted.requested ▸ List.mem_map_of_mem inside, ?_⟩
  by_contra misnamed
  have failed := deleted.misnamed o inside (by simpa using misnamed)
  simp [good] at failed

theorem listedPrunable (listed : listing v here dir = .ok as)
    (opened : v.locate here .node dir = .ok directory)
    (isDirectory : v.node? directory = some .directory) {d : Artifact} (member : d ∈ as)
    (named : isFileName d.id) : Prunable v directory d.id := by
  have looked := memListing listed member
  have backup := (lookSome looked).2.1
  have bare := bareFileName named
  exact ⟨bare, visibleBackup backup, backup, (listedEntry opened isDirectory looked bare).1⟩

/-- What is left of the files `v` is all but the entries that the report says were deleted, and those are
backups of the directory that the policy does not keep. -/
structure Taken (v v' : Volume) (here : Location) (t : Target) (as : List Artifact)
    (directory : Location) (report : PruneReport) : Prop where
  listed : listing v here t.dir = .ok as
  opened : v.locate here .node t.dir = .ok directory
  left : v'.nodes = v.nodes.filter fun e => e.1 ∉ report.deleted.map fun id => directory ++ [.text id]
  decided : ∀ id ∈ report.deleted, id ∈ (Decision.evaluate as t.policy).delete.map Artifact.id
  prunable : ∀ id ∈ report.deleted, Prunable v directory id

theorem deletedTaken {t : Target} (listed : listing v here t.dir = .ok as)
    (opened : v.locate here .node t.dir = .ok directory)
    (isDirectory : v.node? directory = some .directory)
    (deleted : Deleted v directory [] (Decision.evaluate as t.policy).delete os w after) :
    Taken v after.volume here t as directory (.ofOutcomes os) := by
  have named : ∀ id ∈ (PruneReport.ofOutcomes os).deleted,
      ∃ d ∈ (Decision.evaluate as t.policy).delete, isFileName d.id ∧ d.id = id := by
    intro id member
    obtain ⟨d, gone, rfl⟩ := List.mem_map.mp member
    obtain ⟨decided, bare⟩ := deletedNamed deleted gone
    exact ⟨d, decided, bare, rfl⟩
  refine ⟨listed, opened, ?_, fun id member => ?_, fun id member => ?_⟩
  · have all : (deletedOf os).filter (fun d => isFileName d.id) = deletedOf os :=
      List.filter_eq_self.mpr fun d member => (deletedNamed deleted member).2
    rw [deleted.left, Volume.clearNodes, List.nil_append, places, all, PruneReport.ofOutcomes,
      List.map_map]
    rfl
  · obtain ⟨d, decided, _, rfl⟩ := named id member
    exact List.mem_map_of_mem decided
  · obtain ⟨d, decided, bare, rfl⟩ := named id member
    exact listedPrunable listed opened isDirectory (decidedListed (.inr decided)) bare

end Reported
end BackupDirectory

namespace Job
open BackupDirectory
open Report (lines)

section Carried
variable {dryRun yes : Bool} {dir : String} {ds : List Artifact} {w after : World}
  {tried : List String} {answer : Except Failure Unit}

theorem courseDeleted (course : (deleteBackups dir ds).run.Course w tried answer after) :
    ∃ report last, (BackupDirectory.prune dir ds).Course w tried report last ∧ answer = .ok () ∧
      after = { last with output := last.output ++ lines (Report.Prune.outcome report) } := by
  obtain ⟨first, rest, report, last, rfl, pruned, ended⟩ := courseProgram course
  obtain ⟨rfl, rfl, rfl⟩ := coursePrinted ended
  exact ⟨report, last, by rwa [List.append_nil], rfl, rfl⟩

theorem courseCarried (course : (carryOut dryRun yes dir ds).run.Course w tried answer after) :
    (tried = [] ∧ after.volume = w.volume) ∨ (dryRun = false ∧ ∃ before,
      before.volume = w.volume ∧ before.here = w.here ∧
        (deleteBackups dir ds).run.Course before tried answer after) := by
  have heard : ((carryOut dryRun yes dir ds).hearing none).run.Course w tried answer after := course
  rcases courseConsented heard with ⟨untried, still, _⟩ | ⟨deletes, _, rest⟩
  · exact .inl ⟨untried, still⟩
  · exact .inr ⟨deletes, rest⟩

end Carried
end Job

namespace Command
open BackupDirectory Job
open Report (lines)

theorem pruneFramed {location dir policy : Option String} {dryRun yes : Bool}
    {parallelism : Option Nat} {w after : World} {tried : List String} {answer : Except Failure Unit}
    (course : ((Command.prune dir policy dryRun yes parallelism).job location).run.Course w tried
      answer after) :
    (tried = [] ∧ after.volume = w.volume) ∨ (dryRun = false ∧ ∃ t as directory report before last,
      ((Target.resolve location dir policy).run.run w).1 = .ok t ∧ before.volume = w.volume ∧
      (BackupDirectory.prune t.dir (Decision.evaluate as t.policy).delete).Course before tried
        report last ∧
      answer = .ok () ∧
      after = { last with output := last.output ++ lines (Report.Prune.outcome report) } ∧
      Taken w.volume after.volume w.here t as directory report) := by
  rw [Command.job, pruneSurveyed] at course
  obtain ⟨es, surveyed⟩ := courseReading (readsSurvey location dir policy) course
  cases found : ((survey location dir policy).run.run w).1 with
  | error e =>
    rw [found] at surveyed
    obtain ⟨rfl, _, rfl⟩ := surveyed
    exact .inl ⟨rfl, rfl⟩
  | ok ta =>
    obtain ⟨t, as⟩ := ta
    rw [found] at surveyed
    obtain ⟨resolved, listed⟩ := surveyOk.mp found
    obtain ⟨fs, ⟨_, rfl, _, rfl⟩ | ⟨_, carried⟩⟩ := courseFound surveyed
    · exact .inl ⟨rfl, rfl⟩
    · rcases courseCarried carried with ⟨rfl, still⟩ | ⟨deletes, before, volume, start, rest⟩
      · exact .inl ⟨rfl, still⟩
      · obtain ⟨report, last, pruned, answered, rfl⟩ := courseDeleted rest
        obtain ⟨directory, opened, isDirectory, _⟩ := listingIff.mp listed
        have deletable := decidedDeletable (p := t.policy) listed opened isDirectory
        obtain ⟨os, ended, deletions, rfl, fs, rfl⟩ := pruneDeletes pruned
        obtain ⟨_, deleted⟩ := deleteAllCourse opened isDirectory deletions deletable volume start
        have taken := deletedTaken listed opened isDirectory deleted
        exact .inr ⟨deletes, t, as, directory, _, before, _, resolved, volume, pruned, answered,
          rfl, taken⟩

theorem pruneFramedLink :
    let dump : Node := .file ⟨.text "dump", 0, ⟨0, 0, by decide⟩⟩
    let v : Volume := ⟨[([.text "backups"], .directory), ([.text "backups", .text "a"], dump),
      ([.text "backups", .text "b"], .link "a"), ([.text "backups", .text "c\\d"], dump),
      ([.text "backups", .text ".a"], dump), ([.text "backups", .text "b.md5"], dump),
      ([.text "backups", .text "old"], .directory), ([.text "backups", .text "old", .text "b"], dump),
      ([.text "backups", .raw [255]], dump)], by decide⟩
    let w : World := ⟨v, [], ⟨0, 0, by decide⟩, [], "", []⟩
    let prune := (Command.prune (some "backups") (some "smart:1") false true (some 4)).job
      (some "keeper.toml")
    let after := (prune.run.run w).2
    (∃ tried, prune.run.Course w tried (prune.run.run w).1 after) ∧
      after.volume.nodes.map Prod.fst =
        (v.nodes.map Prod.fst).filter (fun l => l ≠ [.text "backups", .text "b"]) ∧
      ∃ t as directory report, Taken v after.volume [] t as directory report := by
  intro dump v w prune after
  let as : List Artifact := [⟨"a", 4, ⟨0, 0, by decide⟩⟩, ⟨"b", 4, ⟨0, 0, by decide⟩⟩,
    ⟨"c\\d", 4, ⟨0, 0, by decide⟩⟩]
  have looked : lookAll v [] "backups" (v.names [.text "backups"]) = .ok as := by decide +kernel
  have listed : listing v [] "backups" = .ok as :=
    listingSorted (by decide +kernel) looked (by decide)
  let t : Target := ⟨"backups", .smart 1 0 0 0, Settings.initial⟩
  let surveyed := (survey (some "keeper.toml") (some "backups") (some "smart:1")).run.run w
  have found : surveyed.1 = .ok (t, as) := surveyOk.mpr ⟨rfl, listed⟩
  have ran : after = ((pruneFound false true (t, as)).run.run surveyed.2).2 := by
    show ((pruneBackups _ _ _ false true).run.run w).2 = _
    rw [pruneSurveyed, runThen found]
  have gone : after.volume.nodes.map Prod.fst =
      (v.nodes.map Prod.fst).filter (fun l => l ≠ [.text "backups", .text "b"]) := by
    rw [ran]
    decide +kernel
  obtain ⟨tried, course⟩ : ∃ tried, prune.run.Course w tried (prune.run.run w).1 after :=
    Program.courseRun prune.run w
  refine ⟨⟨tried, course⟩, gone, ?_⟩
  clear_value after
  rcases pruneFramed course with ⟨_, still⟩ | ⟨_, t, as, directory, report, _, _, _, _, _, _, _, taken⟩
  · rw [still] at gone
    exact absurd gone (by decide +kernel)
  · exact ⟨t, as, directory, report, taken⟩

end Command
end BackupRotation
