import BackupRotation.Proofs.Partition
import BackupRotation.Proofs.PruneFrame
/-! What must hold before a pruning deletes anything. The settings load, the policy flag is understood, the
directory is listed, something is to go, this is no rehearsal, and the user agrees, by a flag or in the
first line of the input. If any of these fails no deletion is tried and no file changes; if none fails
every deletion is tried, once. -/
namespace BackupRotation

namespace Job
open BackupDirectory
open Program (asksBind asksPure asksRequest asksWeaken readsTellAll)

/-- The policy that the flag asks for, or that of the settings where there is no flag. -/
def Chosen (s : Settings) (p : Policy) : Option String → Prop
  | some text => Policy.ofText text = .ok p
  | none => p = s.policy

structure Consent (location dir policy : Option String) (dryRun yes : Bool)
    (unread : Option FileError) (w : World) (s : Settings) (p : Policy) (as : List Artifact) :
    Prop where
  loaded : ((loadSettings location).run w).1 = .ok s
  chosen : Chosen s p policy
  listed : ((BackupDirectory.list (dir.getD s.backupDir)).run w).1 = .ok as
  due : (Decision.evaluate as p).delete ≠ []
  real : dryRun = false
  agreed : yes = true ∨ SaysYes unread w

section Surveyed
variable {location dir policy : Option String} {w : World} {t : Target} {s : Settings} {p : Policy}
  {as : List Artifact}

theorem chosenIff : ((Target.policyOf s policy).run.run w).1 = .ok p ↔ Chosen s p policy := by
  cases policy with
  | none => simp [Target.policyOf, Chosen, Program.run_pure, eq_comm]
  | some text => simp [Target.policyOf, Chosen, ofExcept, orFailOk, Program.run_pure]

theorem resolvedIff : ((Target.resolve location dir policy).run.run w).1 = .ok t ↔
    ∃ s p, ((loadSettings location).run w).1 = .ok s ∧ Chosen s p policy ∧
      t = ⟨dir.getD s.backupDir, p, s⟩ := by
  simp only [Target.resolve, bindOk, orFailOk, chosenIff]
  constructor
  · intro h
    obtain ⟨s, loaded, p, chosen, same⟩ := h
    cases same
    exact ⟨s, p, loaded, chosen, rfl⟩
  · intro h
    obtain ⟨s, p, loaded, chosen, rfl⟩ := h
    exact ⟨s, loaded, p, chosen, rfl⟩

theorem surveyedIff : ((survey location dir policy).run.run w).1 = .ok (t, as) ↔
    ∃ s p, ((loadSettings location).run w).1 = .ok s ∧ Chosen s p policy ∧
      ((BackupDirectory.list (dir.getD s.backupDir)).run w).1 = .ok as ∧
        t = ⟨dir.getD s.backupDir, p, s⟩ := by
  rw [surveyOk, resolvedIff]
  constructor
  · intro h
    obtain ⟨⟨s, p, loaded, chosen, rfl⟩, listed⟩ := h
    exact ⟨s, p, loaded, chosen, by rw [(listEnd w _).1, listed], rfl⟩
  · intro h
    obtain ⟨s, p, loaded, chosen, listed, rfl⟩ := h
    rw [(listEnd w _).1] at listed
    exact ⟨⟨s, p, loaded, chosen, rfl⟩, listed⟩

end Surveyed

section Found
variable {unread : Option FileError} {dryRun yes : Bool} {t : Target} {as : List Artifact}

theorem silentAnnounce : (announce t as).run.Asks Request.silent := by
  refine asksJob (asksBind (asksWeaken Request.readsSilent (readsTellAll _)) fun _ => asksPure _) fun _ => ?_
  exact asksJob (asksRequest rfl) fun _ => asksRequest rfl

theorem hearingFound : (pruneFound dryRun yes (t, as)).hearing unread = announce t as >>= fun _ =>
    if (Decision.evaluate as t.policy).deletesNothing then return ()
    else (carryOut dryRun yes t.dir (Decision.evaluate as t.policy).delete).hearing unread := by
  unfold pruneFound
  rw [hearingBind, hearingSame silentAnnounce]
  refine congrArg _ (funext fun _ => ?_)
  dsimp only
  split
  · exact hearingSame (asksPure _)
  · rfl

theorem consentIff {location dir policy : Option String} {w : World}
    (found : ((survey location dir policy).run.run w).1 = .ok (t, as)) :
    (∃ s p as, Consent location dir policy dryRun yes unread w s p as) ↔
      (Decision.evaluate as t.policy).delete ≠ [] ∧ dryRun = false ∧
        (yes = true ∨ SaysYes unread w) := by
  constructor
  · intro h
    obtain ⟨s, p, as', consent⟩ := h
    have given := surveyedIff.mpr ⟨s, p, consent.loaded, consent.chosen, consent.listed, rfl⟩
    cases found.symm.trans given
    exact ⟨consent.due, consent.real, consent.agreed⟩
  · intro h
    obtain ⟨due, real, agreed⟩ := h
    obtain ⟨s, p, loaded, chosen, listed, rfl⟩ := surveyedIff.mp found
    exact ⟨s, p, as, loaded, chosen, listed, due, real, agreed⟩

end Found
end Job

namespace Command
open BackupDirectory Job
open Program (asksWeaken)

/-- The deletion of each of `ds` is tried once, in their order. -/
structure Attempted (dir : String) (ds : List Artifact) (w after : World) (tried : List String) :
    Prop where
  distinct : (ds.map Artifact.id).Nodup
  asked : ∃ os before last, (deleteAll dir ds).Course before tried os last ∧
    before.volume = w.volume ∧ last.volume = after.volume ∧ os.map Outcome.artifact = ds ∧
      ∀ o ∈ os, isFileName o.artifact.id = false →
        o.failure = some (.invalidIdentifier o.artifact.id)
  once : tried.Nodup
  all : tried = paths dir ds

theorem attempted {dir : String} {p : Policy} {as : List Artifact} {w before after : World}
    {tried : List String} {answer : Except Failure Unit}
    (listed : listing w.volume w.here dir = .ok as) (volume : before.volume = w.volume)
    (start : before.here = w.here)
    (course : (deleteBackups dir (Decision.evaluate as p).delete).run.Course before tried answer after) :
    Attempted dir (Decision.evaluate as p).delete w after tried := by
  obtain ⟨report, ended, pruned, rfl, rfl⟩ := courseDeleted course
  obtain ⟨os, last, deletions, rfl, es, rfl⟩ := pruneDeletes pruned
  obtain ⟨directory, opened, isDirectory, _⟩ := listingIff.mp listed
  have deletable := decidedDeletable (p := p) listed opened isDirectory
  obtain ⟨rfl, deleted⟩ := deleteAllCourse opened isDirectory deletions deletable volume start
  have distinct := Decision.deleteIdsNodup as p
  exact ⟨distinct, ⟨os, before, last, deletions, volume, rfl, deleted.requested, deleted.misnamed⟩,
    pathsNodup distinct, rfl⟩

theorem pruneNeedsConsent {location dir policy : Option String} {dryRun yes : Bool}
    {parallelism : Option Nat} {unread : Option FileError} {w after : World} {tried : List String}
    {answer : Except Failure Unit}
    (course : (((Command.prune dir policy dryRun yes parallelism).job location).hearing
      unread).run.Course w tried answer after) :
    ((¬ ∃ s p as, Consent location dir policy dryRun yes unread w s p as) ∧
      tried = [] ∧ after.volume = w.volume) ∨
    ∃ s p as, Consent location dir policy dryRun yes unread w s p as ∧
      Attempted (dir.getD s.backupDir) (Decision.evaluate as p).delete w after tried := by
  have reads := readsSurvey location dir policy
  rw [Command.job, pruneSurveyed, hearingBind,
    hearingSame (asksWeaken Request.readsSilent reads)] at course
  obtain ⟨es, surveyed⟩ := courseReading reads course
  cases found : ((survey location dir policy).run.run w).1 with
  | error e =>
    rw [found] at surveyed
    obtain ⟨rfl, _, rfl⟩ := surveyed
    refine .inl ⟨?_, rfl, rfl⟩
    intro h
    obtain ⟨s, p, as, consent⟩ := h
    have given := surveyedIff.mpr ⟨s, p, consent.loaded, consent.chosen, consent.listed, rfl⟩
    simp [found] at given
  | ok ta =>
    obtain ⟨t, as⟩ := ta
    simp only [found] at surveyed
    rw [hearingFound] at surveyed
    -- from here on the volume is as it was; only the question is left between this and the deletions
    obtain ⟨fs, ⟨idle, rfl, _, rfl⟩ | ⟨due, carried⟩⟩ := courseDecided surveyed
    · exact .inl ⟨fun consent => ((consentIff found).mp consent).1 idle, rfl, rfl⟩
    · rcases courseConsented carried with ⟨rfl, still, refused⟩ |
        ⟨real, agreed, before, volume, start, deleting⟩
      · exact .inl ⟨fun consent => refused ((consentIff found).mp consent).2, rfl, still⟩
      · obtain ⟨s, p, loaded, chosen, listed, rfl⟩ := surveyedIff.mp found
        refine .inr ⟨s, p, as, ⟨loaded, chosen, listed, due, real, agreed⟩, ?_⟩
        rw [(listEnd w _).1] at listed
        exact attempted listed volume start deleting

theorem pruneNeedsConsentAsked :
    let dump : Node := .file ⟨.text "dump", 0, ⟨0, 0, by decide⟩⟩
    let v : Volume := ⟨[([.text "backups"], .directory), ([.text "backups", .text "a"], dump),
      ([.text "backups", .text "b"], dump)], by decide⟩
    let w : World := ⟨v, [], ⟨0, 0, by decide⟩, " Yes\nno\n".toList, "", []⟩
    let as : List Artifact := [⟨"a", 4, ⟨0, 0, by decide⟩⟩, ⟨"b", 4, ⟨0, 0, by decide⟩⟩]
    let prune := (Command.prune (some "backups") (some "smart:1") false false none).job
      (some "keeper.toml")
    (∃ answer after, prune.run.Course w ["backups/b"] answer after ∧
      Attempted "backups" (Decision.evaluate as (.smart 1 0 0 0)).delete w after ["backups/b"]) ∧
    ∃ answer after, (prune.hearing (some .notText)).run.Course w [] answer after ∧
      after.volume = w.volume := by
  intro dump v w as prune
  have looked : lookAll v [] "backups" (v.names [.text "backups"]) = .ok as := by decide +kernel
  have listed : ((BackupDirectory.list "backups").run w).1 = .ok as :=
    listAnswers (by decide +kernel) looked (by decide)
  have consent : Consent (some "keeper.toml") (some "backups") (some "smart:1") false false none w
      Settings.initial (.smart 1 0 0 0) as :=
    ⟨rfl, rfl, listed, by decide +kernel, rfl, .inr ⟨rfl, by decide +kernel⟩⟩
  constructor
  · obtain ⟨tried, course⟩ := Program.courseRun prune.run w
    have heard : (prune.hearing none).run.Course w tried (prune.run.run w).1 (prune.run.run w).2 := course
    rcases pruneNeedsConsent heard with ⟨none, _⟩ | ⟨s, p, as', given, attempted⟩
    · exact absurd ⟨_, _, _, consent⟩ none
    · obtain rfl : p = .smart 1 0 0 0 := Except.ok.inj (given.chosen.symm.trans consent.chosen)
      obtain rfl : as' = as := Except.ok.inj (given.listed.symm.trans listed)
      have due : paths "backups" (Decision.evaluate as (.smart 1 0 0 0)).delete = ["backups/b"] := by
        decide +kernel
      obtain rfl : tried = ["backups/b"] := attempted.all.trans due
      exact ⟨_, _, course, attempted⟩
  · obtain ⟨tried, course⟩ := Program.courseRun (prune.hearing (some .notText)).run w
    rcases pruneNeedsConsent course with ⟨_, rfl, still⟩ | ⟨_, _, _, given, _⟩
    · exact ⟨_, _, course, still⟩
    · rcases given.agreed with flag | ⟨unread, _⟩
      · cases flag
      · cases unread

end Command
end BackupRotation
