import BackupRotation.Job.Backups
import BackupRotation.Proofs.Courses
import BackupRotation.Proofs.Listing
/-! How every command on backups begins: the settings are loaded, the flags are applied to them, and the
directory is listed. This only reads. A pruning then announces what it is about to do, and does it, or
asks first, or says that it does not. -/
namespace BackupRotation

namespace Program
open BackupDirectory

theorem readsLoad (path : String) : (Settings.load path).Asks Request.reads := by
  refine asksBind (asksRequest rfl) fun answer => ?_
  cases answer with
  | error e => cases e <;> exact asksPure _
  | ok text =>
    simp only
    cases Settings.ofText? text with
    | none => exact asksPure _
    | some found =>
      obtain ⟨s, events⟩ := found
      refine asksBind (readsTellAll events) fun _ => ?_
      cases s.validate with
      | ok u => exact asksPure _
      | error e => exact asksPure _

theorem readsInspect (dir : String) (entry : Octets) : (inspect dir entry).Asks Request.reads := by
  cases entry with
  | raw bytes => exact asksBind (asksRequest rfl) fun _ => asksPure _
  | text fileName =>
    simp only [inspect]
    split
    · exact asksBind (asksRequest rfl) fun _ => asksPure _
    · refine asksBind (asksRequest rfl) fun answer => ?_
      exact asksBind (readsTellAll _) fun _ => asksPure _

theorem readsInspectAll (dir : String) (entries : List Octets) :
    (inspectAll dir entries).Asks Request.reads := by
  induction entries with
  | nil => exact asksPure _
  | cons entry entries ih =>
    refine asksBind (readsInspect dir entry) fun found => ?_
    cases found with
    | error e => exact asksPure _
    | ok found =>
      refine asksBind ih fun more => ?_
      cases more <;> exact asksPure _

theorem readsList (dir : String) : (list dir).Asks Request.reads := by
  refine asksBind (asksRequest rfl) fun answer => ?_
  cases answer with
  | error e => exact asksPure _
  | ok entries =>
    refine asksBind (readsInspectAll dir entries) fun found => ?_
    cases found with
    | error e => exact asksPure _
    | ok found => exact asksBind (asksRequest rfl) fun _ => asksPure _

end Program

namespace Job
open Program (asksBind asksPure asksRequest readsLeave readsTellAll)
open Report (lines)

/-- What every command on backups begins with. -/
def survey (location dir policy : Option String) : Job (Target × List Artifact) := do
  let t ← Target.resolve location dir policy
  let as ← t.artifacts
  return (t, as)

def planFound (explain json : Bool) : Target × List Artifact → Job Unit
  | (t, as) => do
    ofProgram (Program.tellAll (Plan.events t.policy explain as))
    let p := Plan.of t.dir t.policy explain as
    if json then print ((Report.Plan.record p).toPrettyText ++ "\n")
    else print (lines (Report.Plan.text p))

/-- What a pruning says before it deletes anything or asks. -/
def announcement (t : Target) (as : List Artifact) : List String :=
  let r := Decision.evaluate as t.policy
  Report.Prune.heading t.dir t.policy as.length ++
    if r.deletesNothing then Report.Prune.nothing else Report.Prune.intention r

def announce (t : Target) (as : List Artifact) : Job Unit := do
  ofProgram (Program.tellAll (Decision.events as t.policy))
  let r := Decision.evaluate as t.policy
  print (lines (Report.Prune.heading t.dir t.policy as.length))
  print (lines (if r.deletesNothing then Report.Prune.nothing else Report.Prune.intention r))

def carryOut (dryRun yes : Bool) (dir : String) (ds : List Artifact) : Job Unit := do
  if dryRun then print (lines Report.Prune.dryRun)
  else if yes then deleteBackups dir ds
  else if ← confirm ds.length then deleteBackups dir ds
  else print (lines Report.Prune.aborted)

def pruneFound (dryRun yes : Bool) : Target × List Artifact → Job Unit
  | (t, as) => do
    announce t as
    let r := Decision.evaluate as t.policy
    if r.deletesNothing then return ()
    else carryOut dryRun yes t.dir r.delete

theorem planSurveyed (location dir policy : Option String) (explain json : Bool) :
    planPruning location dir policy explain json =
      survey location dir policy >>= planFound explain json := by
  simp only [planPruning, survey, planFound, bind_assoc, pure_bind]

theorem pruneSurveyed (location dir policy : Option String) (dryRun yes : Bool) :
    pruneBackups location dir policy dryRun yes =
      survey location dir policy >>= pruneFound dryRun yes := by
  simp only [pruneBackups, survey, pruneFound, announce, carryOut, bind_assoc, pure_bind]
  refine congrArg _ (funext fun t => congrArg _ (funext fun as => ?_))
  cases Decision.evaluate as t.policy |>.deletesNothing with
  | true => simp
  | false => rfl

section Reading
variable {α β : Type} {job : Job α} {f : α → Job β} {allowed : Request → Bool}

theorem asksJob (first : job.run.Asks allowed) (rest : ∀ a, (f a).run.Asks allowed) :
    (job >>= f).run.Asks allowed := by
  refine asksBind first fun answer => ?_
  cases answer with
  | ok a => exact rest a
  | error e => exact asksPure _

theorem asksOrFail {ε : Type} {p : Program (Except ε α)} {failure : ε → Failure}
    (asks : p.Asks allowed) : (orFail p failure).run.Asks allowed := by
  refine asksBind asks fun answer => ?_
  cases answer <;> exact asksPure _

theorem readsSettings (location : Option String) : (loadSettings location).Asks Request.reads := by
  cases location with
  | none => exact asksPure _
  | some path => exact Program.readsLoad path

theorem readsResolve (location dir policy : Option String) :
    (Target.resolve location dir policy).run.Asks Request.reads := by
  refine asksJob (asksOrFail (readsSettings location)) fun s => asksJob ?_ fun p => asksPure _
  cases policy with
  | none => exact asksPure _
  | some text => exact asksOrFail (asksPure _)

theorem readsSurvey (location dir policy : Option String) :
    (survey location dir policy).run.Asks Request.reads :=
  asksJob (readsResolve location dir policy) fun t =>
    asksJob (asksOrFail (Program.readsList t.dir)) fun _ => asksPure _

end Reading

section Answers
variable {α β : Type} {w : World}

theorem runThen {job : Job α} {f : α → Job β} {a : α} (answered : (job.run.run w).1 = .ok a) :
    (job >>= f).run.run w = (f a).run.run (job.run.run w).2 := by
  rw [ExceptT.run_bind, Program.run_bind, answered]

theorem bindOk {job : Job α} {f : α → Job β} {b : β} :
    ((job >>= f).run.run w).1 = .ok b ↔
      ∃ a, (job.run.run w).1 = .ok a ∧ ((f a).run.run (job.run.run w).2).1 = .ok b := by
  cases answered : (job.run.run w).1 with
  | error e => simp [ExceptT.run_bind, Program.run_bind, answered, Program.run_pure]
  | ok a => simp only [runThen answered, Except.ok.injEq, exists_eq_left']

theorem orFailOk {ε : Type} {p : Program (Except ε α)} {failure : ε → Failure} {a : α} :
    ((orFail p failure).run.run w).1 = .ok a ↔ (p.run w).1 = .ok a := by
  rw [orFail, ExceptT.run_mk, Program.run_bind]
  cases (p.run w).1 <;> simp [Program.run_pure]

theorem surveyOk {location dir policy : Option String} {t : Target} {as : List Artifact} :
    ((survey location dir policy).run.run w).1 = .ok (t, as) ↔
      ((Target.resolve location dir policy).run.run w).1 = .ok t ∧
        BackupDirectory.listing w.volume w.here t.dir = .ok as := by
  obtain ⟨es, left⟩ := readsLeave (w := w) (readsResolve location dir policy)
  have listed (target : Target) :
      ((BackupDirectory.list target.dir).run { w with events := w.events ++ es }).1 =
        BackupDirectory.listing w.volume w.here target.dir :=
    (BackupDirectory.listEnd _ target.dir).1
  simp only [survey, bindOk, left, Target.artifacts, orFailOk, listed]
  constructor
  · intro h
    obtain ⟨target, resolved, artifacts, found, same⟩ := h
    cases same
    exact ⟨resolved, found⟩
  · intro h
    obtain ⟨resolved, found⟩ := h
    exact ⟨t, resolved, as, found, rfl⟩

end Answers

section Courses
variable {α β : Type} {w after : World} {tried : List String} {answer : Except Failure β}

theorem courseReading {job : Job α} {f : α → Job β} (reads : job.run.Asks Request.reads)
    (course : (job >>= f).run.Course w tried answer after) :
    ∃ es, match (job.run.run w).1 with
      | .ok a => (f a).run.Course { w with events := w.events ++ es } tried answer after
      | .error e => tried = [] ∧ answer = .error e ∧ after = { w with events := w.events ++ es } := by
  obtain ⟨es, left⟩ := readsLeave (w := w) reads
  rw [ExceptT.run_bind] at course
  have rest := Program.courseThen (Program.readsSpare reads) course
  rw [left] at rest
  refine ⟨es, ?_⟩
  cases answered : (job.run.run w).1 with
  | ok a => simpa only [answered] using rest
  | error e =>
    rw [answered] at rest
    exact Program.courseDone rest

theorem coursePrint {text : String} {f : Unit → Job β}
    (course : (print text >>= f).run.Course w tried answer after) :
    (f ()).run.Course { w with output := w.output ++ text } tried answer after := by
  have asked : (Program.ask (.print text) fun _ => (f ()).run).Course w tried answer after := course
  cases asked with
  | answered rest => exact rest

theorem coursePrinted {text : String} {answer : Except Failure Unit}
    (course : (print text).run.Course w tried answer after) :
    tried = [] ∧ answer = .ok () ∧ after = { w with output := w.output ++ text } :=
  Program.courseDone (coursePrint (f := pure) course)

theorem courseProgram {p : Program α} {f : α → Job β}
    (course : (ofProgram p >>= f).run.Course w tried answer after) :
    ∃ first rest a between, tried = first ++ rest ∧ p.Course w first a between ∧
      (f a).run.Course between rest answer after := by
  have apart : (ofProgram p >>= f).run = p >>= fun a => (f a).run := by
    simp [ofProgram, ExceptT.run_bind, ExceptT.run_lift, bind_map_left]
  rw [apart] at course
  exact Program.courseBind course

theorem courseTold {es : List Event} {f : Unit → Job β}
    (course : (ofProgram (Program.tellAll es) >>= f).run.Course w tried answer after) :
    (f ()).run.Course { w with events := w.events ++ es } tried answer after := by
  induction es generalizing w with
  | nil =>
    rw [List.append_nil]
    exact course
  | cons e es ih =>
    have asked : (Program.ask (.tell e) fun _ =>
        (ofProgram (Program.tellAll es) >>= f).run).Course w tried answer after := course
    cases asked with
    | answered rest =>
      rw [List.append_cons]
      exact ih rest

theorem linesAppend (xs ys : List String) : lines (xs ++ ys) = lines xs ++ lines ys := by
  simp only [lines, List.map_append, String.join_append]

theorem courseAnnounced {t : Target} {as : List Artifact} {f : Unit → Job β}
    (course : (announce t as >>= f).run.Course w tried answer after) :
    ∃ es, (f ()).run.Course
      { w with output := w.output ++ lines (announcement t as), events := w.events ++ es }
      tried answer after := by
  simp only [announce, bind_assoc] at course
  have said := coursePrint (coursePrint (courseTold course))
  rw [String.append_assoc, ← linesAppend] at said
  exact ⟨_, said⟩

theorem deletesNothingIff {r : Partition} : r.deletesNothing = true ↔ r.delete = [] := List.isEmpty_iff

theorem courseDecided {t : Target} {as : List Artifact} {job : Job Unit} {answer : Except Failure Unit}
    (course : (announce t as >>= fun _ => if (Decision.evaluate as t.policy).deletesNothing then return ()
      else job).run.Course w tried answer after) :
    let ds := (Decision.evaluate as t.policy).delete
    ∃ es, let said :=
        { w with output := w.output ++ lines (announcement t as), events := w.events ++ es }
      (ds = [] ∧ tried = [] ∧ answer = .ok () ∧ after = said) ∨
        (ds ≠ [] ∧ job.run.Course said tried answer after) := by
  intro ds
  obtain ⟨es, announced⟩ := courseAnnounced course
  refine ⟨es, ?_⟩
  simp only [deletesNothingIff] at announced
  by_cases idle : ds = []
  · rw [if_pos idle] at announced
    exact .inl ⟨idle, Program.courseDone announced⟩
  · rw [if_neg idle] at announced
    exact .inr ⟨idle, announced⟩

theorem courseFound {dryRun yes : Bool} {t : Target} {as : List Artifact}
    {answer : Except Failure Unit}
    (course : (pruneFound dryRun yes (t, as)).run.Course w tried answer after) :
    let ds := (Decision.evaluate as t.policy).delete
    ∃ es, let said :=
        { w with output := w.output ++ lines (announcement t as), events := w.events ++ es }
      (ds = [] ∧ tried = [] ∧ answer = .ok () ∧ after = said) ∨
        (ds ≠ [] ∧ (carryOut dryRun yes t.dir ds).run.Course said tried answer after) :=
  courseDecided course

end Courses

end Job
end BackupRotation
