import BackupRotation.Proofs.PlanReports
import BackupRotation.Proofs.PruneFrame
/-! The plan, the rehearsal and the pruning of one directory agree. They fail alike; else the plan lists,
the rehearsal shows and the pruning tries to delete the same backups in the same order, and the anchor in
the plan is the one that the ages were measured from. All of this is read from what the commands print. -/
namespace BackupRotation

namespace BackupDirectory
variable {v : Volume} {here : Location} {dir : String} {as : List Artifact}

theorem namesNodup (v : Volume) (directory : Location) : (v.names directory).Nodup := by
  have keyed : v.names directory = (v.nodes.map Prod.fst).filterMap (Volume.nameIn? directory) := by
    rw [List.filterMap_map]
    rfl
  rw [keyed]
  refine v.unique.filterMap fun l m name here there => ?_
  rw [Volume.nameInIff.mp here, Volume.nameInIff.mp there]

theorem listingDistinct (listed : listing v here dir = .ok as) : (as.map Artifact.id).Nodup := by
  obtain ⟨directory, _, _, all, rfl⟩ := listingIff.mp listed
  have perm : (inOrder ((v.names directory).filterMap (shown v here dir))).Perm _ :=
    List.mergeSort_perm _ _
  rw [(perm.map Artifact.id).nodup_iff, List.map_filterMap]
  refine (namesNodup v directory).filterMap fun entry other id found found' => ?_
  obtain ⟨a, shownHere, rfl⟩ := Option.map_eq_some_iff.mp found
  obtain ⟨b, shownThere, same⟩ := Option.map_eq_some_iff.mp found'
  rw [shownName shownHere, shownName shownThere, same]

end BackupDirectory

namespace Plan
variable {p : Policy} {as : List Artifact}

/-- The anchor is the time of the newest backup, and the slots of a rotation are those of the windows behind it. -/
structure Measured (as : List Artifact) (p : Policy) (anchor : Option Instant) : Prop where
  newest : ∀ s, anchor = some s ↔ Artifact.Anchored as s
  slots : ∀ d w m y, p = .smart d w m y → ∀ a t i, Decision.Gives as p a (.slot t i) ↔
    i < (p.countOf t).toNat ∧ ∃ s position, anchor = some s ∧ Slot.Wins as s t i position a

/-- The anchor of a plan is taken over the whole list. No name repeats in it, so the newest of all backups is
the newest of the first backups. -/
theorem anchorMeasured (distinct : (as.map Artifact.id).Nodup) : Measured as p (Artifact.anchor? as) := by
  refine ⟨fun s => Artifact.anchorIff, fun d w m y smart a t i => ?_⟩
  rw [smart, Decision.givesSlot, Artifact.firstsOfNodup distinct]
  simp only [Artifact.anchorIff]

end Plan

namespace Job
open BackupDirectory
open Report (lines OneLine Printed)

/-- What a plan, a rehearsal and a pruning leave behind where they agree on the backups to keep and to delete.
A pruning prints the same rows as a rehearsal before it reports what it did. -/
structure Agreed (explain json : Bool) (t : Target) (as : List Artifact) (r : Partition)
    (w planned rehearsed after : World) (tried : List String) : Prop where
  planned : ∃ said anchor, planned.output = w.output ++ said ∧
    Plan.Told explain json (OneLine t.dir as) said (r.keep.map Artifact.id) (r.delete.map Artifact.id) anchor ∧
    Plan.Measured as t.policy anchor
  rehearsed : ∃ said ls, rehearsed.output = w.output ++ said ∧ Printed (OneLine t.dir as) said ls ∧
    ls.filterMap Report.Prune.id? = r.delete.map Artifact.id
  announced : ∃ said rest ls, after.output = w.output ++ said ++ rest ∧ Printed (OneLine t.dir as) said ls ∧
    ls.filterMap Report.Prune.id? = r.delete.map Artifact.id
  pruned : ∃ os before last, (deleteAll t.dir r.delete).Course before tried os last ∧
    before.volume = w.volume ∧ last.volume = after.volume ∧ os.map Outcome.artifact = r.delete
  tried : tried = paths t.dir r.delete

theorem rehearsalRead (t : Target) (as : List Artifact) :
    let ds := (Decision.evaluate as t.policy).delete
    let ls := announcement t as ++ if ds = [] then [] else Report.Prune.dryRun
    Printed (OneLine t.dir as) (lines ls) ls ∧ ls.filterMap Report.Prune.id? = ds.map Artifact.id := by
  intro ds ls
  have whole : ∀ l ∈ if ds = [] then [] else Report.Prune.dryRun, '\n' ∉ l.toList := by
    split
    · simp
    · simp [Report.Prune.dryRun]
  have flush : ∀ l ∈ if ds = [] then [] else Report.Prune.dryRun, Report.Flush l := by
    split
    · simp
    · simp [Report.Prune.dryRun, Report.Flush]
  refine ⟨Report.linesPrinted fun oneLine => ?_, ?_⟩
  · exact List.forall_mem_append.mpr ⟨Report.Prune.announcedWhole oneLine, whole⟩
  · rw [List.filterMap_append, Report.Prune.announcedRead,
      Report.readNone (fun l => Report.Prune.flushNone) flush, List.append_nil]

section Found
variable {explain json yes : Bool} {t : Target} {as : List Artifact} {w after : World}
  {tried : List String} {answer : Except Failure Unit}

theorem coursePlanned (course : (planFound explain json (t, as)).run.Course w tried answer after) :
    let p := Plan.of t.dir t.policy explain as
    answer = .ok () ∧ after.volume = w.volume ∧ after.output = w.output ++
      if json then (Report.Plan.record p).toPrettyText ++ "\n" else lines (Report.Plan.text p) := by
  intro p
  have said := courseTold course
  cases json with
  | true =>
    obtain ⟨_, rfl, rfl⟩ := coursePrinted said
    exact ⟨rfl, rfl, rfl⟩
  | false =>
    obtain ⟨_, rfl, rfl⟩ := coursePrinted said
    exact ⟨rfl, rfl, rfl⟩

theorem courseRehearsed (course : (pruneFound true yes (t, as)).run.Course w tried answer after) :
    let r := Decision.evaluate as t.policy
    answer = .ok () ∧ after.volume = w.volume ∧ after.output = w.output ++
      lines (announcement t as ++ if r.delete = [] then [] else Report.Prune.dryRun) := by
  intro r
  obtain ⟨es, ⟨idle, _, rfl, rfl⟩ | ⟨some, carried⟩⟩ := courseFound course
  · refine ⟨rfl, rfl, ?_⟩
    simp [r, idle]
  · obtain ⟨_, rfl, rfl⟩ := coursePrinted carried
    refine ⟨rfl, rfl, ?_⟩
    simp [r, some, linesAppend, String.append_assoc]

theorem coursePruned (course : (pruneFound false true (t, as)).run.Course w tried answer after)
    (listed : listing w.volume w.here t.dir = .ok as) :
    let ds := (Decision.evaluate as t.policy).delete
    answer = .ok () ∧ tried = paths t.dir ds ∧
      ∃ os before last, (deleteAll t.dir ds).Course before tried os last ∧
        before.volume = w.volume ∧ last.volume = after.volume ∧ os.map Outcome.artifact = ds ∧
        after.output = w.output ++ lines (announcement t as ++
          if ds = [] then [] else Report.Prune.outcome (.ofOutcomes os)) := by
  intro ds
  obtain ⟨es, ⟨idle, rfl, rfl, rfl⟩ | ⟨some, carried⟩⟩ := courseFound course
  · have none : ds = [] := idle
    rw [none]
    exact ⟨rfl, rfl, [], w, w, .done [] w, rfl, rfl, rfl, by simp⟩
  · obtain ⟨report, ended, pruned, rfl, rfl⟩ := courseDeleted carried
    obtain ⟨os, last, deletions, rfl, fs, rfl⟩ := pruneDeletes pruned
    obtain ⟨directory, opened, isDirectory, _⟩ := listingIff.mp listed
    have deletable : Deletable w.volume directory t.dir ds :=
      decidedDeletable listed opened isDirectory
    obtain ⟨rfl, deleted⟩ := deleteAllCourse opened isDirectory deletions deletable rfl rfl
    refine ⟨rfl, rfl, os, _, last, deletions, rfl, rfl, deleted.requested, ?_⟩
    simp [deleted.silent, ds, some, linesAppend, String.append_assoc]

end Found
end Job

namespace Command
open BackupDirectory Job
open Report (lines OneLine Printed)

theorem commandsAgree {location dir policy : Option String} {explain json yes : Bool}
    {parallelism parallelism' : Option Nat} {w after : World} {tried : List String}
    {answer : Except Failure Unit}
    (course : ((Command.prune dir policy false true parallelism).job location).run.Course w tried
      answer after) :
    let planned := ((Command.plan dir policy explain json).job location).run.run w
    let rehearsed := ((Command.prune dir policy true yes parallelism').job location).run.run w
    planned.1 = answer ∧ rehearsed.1 = answer ∧
      planned.2.volume = w.volume ∧ rehearsed.2.volume = w.volume ∧
      ((∃ e, answer = .error e ∧ tried = [] ∧ after.volume = w.volume) ∨
        (answer = .ok () ∧ ∃ t as, ((Target.resolve location dir policy).run.run w).1 = .ok t ∧
          listing w.volume w.here t.dir = .ok as ∧
          Agreed explain json t as (Decision.evaluate as t.policy) w planned.2 rehearsed.2 after tried)) := by
  intro planned rehearsed
  obtain ⟨_, planning⟩ : ∃ none, ((survey location dir policy >>= planFound explain json).run.Course w
      none planned.1 planned.2) := planSurveyed .. ▸ Program.courseRun _ w
  obtain ⟨_, rehearsal⟩ : ∃ none, ((survey location dir policy >>= pruneFound true yes).run.Course w
      none rehearsed.1 rehearsed.2) := pruneSurveyed .. ▸ Program.courseRun _ w
  rw [Command.job, pruneSurveyed] at course
  -- the survey is one program for all three, so one answer of it decides for all of them
  have reads := readsSurvey location dir policy
  obtain ⟨_, planning⟩ := courseReading reads planning
  obtain ⟨_, rehearsal⟩ := courseReading reads rehearsal
  obtain ⟨_, pruning⟩ := courseReading reads course
  cases found : ((survey location dir policy).run.run w).1 with
  | error e =>
    rw [found] at planning rehearsal pruning
    obtain ⟨_, planFails, planLeft⟩ := planning
    obtain ⟨_, rehearsalFails, rehearsalLeft⟩ := rehearsal
    obtain ⟨untried, rfl, rfl⟩ := pruning
    rw [planLeft, rehearsalLeft]
    exact ⟨planFails, rehearsalFails, rfl, rfl, .inl ⟨e, rfl, untried, rfl⟩⟩
  | ok ta =>
    obtain ⟨t, as⟩ := ta
    rw [found] at planning rehearsal pruning
    obtain ⟨resolved, listed⟩ := surveyOk.mp found
    obtain ⟨planEnds, planKeeps, planSays⟩ := coursePlanned planning
    obtain ⟨rehearsalEnds, rehearsalKeeps, rehearsalSays⟩ := courseRehearsed rehearsal
    obtain ⟨rfl, asked, os, before, last, deletions, start, left, requested, pruneSays⟩ :=
      coursePruned pruning listed
    refine ⟨planEnds, rehearsalEnds, planKeeps, rehearsalKeeps, .inr ⟨rfl, t, as, resolved, listed, ?_⟩⟩
    obtain ⟨printed, shown⟩ := rehearsalRead t as
    have told := Plan.told t.dir t.policy explain as json
    have measured : Plan.Measured as t.policy _ := Plan.anchorMeasured (listingDistinct listed)
    have announced : Printed (OneLine t.dir as) (lines (announcement t as)) (announcement t as) :=
      Report.linesPrinted Report.Prune.announcedWhole
    rw [linesAppend, ← String.append_assoc] at pruneSays
    exact ⟨⟨_, _, planSays, told, measured⟩, ⟨_, _, rehearsalSays, printed, shown⟩,
      ⟨_, _, _, pruneSays, announced, Report.Prune.announcedRead t as⟩,
      ⟨os, before, last, deletions, start, left, requested⟩, asked⟩

theorem commandsAgreeLink :
    let dump : Node := .file ⟨.text "dump", 0, ⟨0, 0, by decide⟩⟩
    let v : Volume := ⟨[([.text "backups"], .directory), ([.text "backups", .text "a"], dump),
      ([.text "backups", .text "b"], .link "a"), ([.text "backups", .text "c\\d"], dump)], by decide⟩
    let w : World := ⟨v, [], ⟨0, 0, by decide⟩, [], "", []⟩
    let a : Artifact := ⟨"a", 4, ⟨0, 0, by decide⟩⟩
    let b : Artifact := ⟨"b", 4, ⟨0, 0, by decide⟩⟩
    let c : Artifact := ⟨"c\\d", 4, ⟨0, 0, by decide⟩⟩
    let as := [a, b, c]
    let plan := (Command.plan (some "backups") (some "smart:1") true true).job (some "keeper.toml")
    let rehearse := (Command.prune (some "backups") (some "smart:1") true true none).job
      (some "keeper.toml")
    let prune := (Command.prune (some "backups") (some "smart:1") false true (some 4)).job
      (some "keeper.toml")
    ∃ after, prune.run.Course w ["backups/b"] (.ok ()) after ∧
      Agreed true true ⟨"backups", .smart 1 0 0 0, Settings.initial⟩ as ⟨[a], [b, c]⟩ w (plan.run.run w).2
        (rehearse.run.run w).2 after ["backups/b"] := by
  intro dump v w a b c as plan rehearse prune
  have looked : lookAll v [] "backups" (v.names [.text "backups"]) = .ok as := by decide +kernel
  have listed : listing v [] "backups" = .ok as :=
    listingSorted (by decide +kernel) looked (by decide)
  let t : Target := ⟨"backups", .smart 1 0 0 0, Settings.initial⟩
  have resolved :
      ((Target.resolve (some "keeper.toml") (some "backups") (some "smart:1")).run.run w).1 = .ok t := rfl
  obtain ⟨tried, course⟩ := Program.courseRun prune.run w
  have ends : (prune.run.run w).1 = .ok () := by
    show ((pruneBackups _ _ _ false true).run.run w).1 = _
    rw [pruneSurveyed, runThen (surveyOk.mpr ⟨resolved, listed⟩)]
    decide +kernel
  rw [ends] at course
  obtain ⟨_, _, _, _, ⟨e, failed, _⟩ | ⟨_, t', as', resolved', listed', agreed⟩⟩ :=
    @commandsAgree _ _ _ true true true _ none _ _ _ _ course
  · cases failed
  · obtain rfl := Except.ok.inj (resolved.symm.trans resolved')
    obtain rfl := Except.ok.inj (listed.symm.trans listed')
    have decided : Decision.evaluate as t.policy = ⟨[a], [b, c]⟩ := by decide +kernel
    have asked : tried = ["backups/b"] := agreed.tried.trans (by decide +kernel)
    rw [asked, decided] at agreed
    rw [asked] at course
    exact ⟨_, course, agreed⟩

end Command
end BackupRotation
