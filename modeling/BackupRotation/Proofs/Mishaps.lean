import BackupRotation.Proofs.Survey
/-! What can come of a program where requests fail for reasons of their own: a full disk, a missing
permission, a broken device. A request that fails so changes nothing, except that writing may leave any
part of the text, or nothing of the old one. A program can be stopped after every request. -/
namespace BackupRotation

namespace Request

/-- What a request that can fail answers when it does. -/
def failed? (e : FileError) : (r : Request) → Option r.Answer
  | readText _ => some (.error e)
  | entries _ => some (.error e)
  | status _ => some (.error e)
  | removeFile _ => some (.error e)
  | createDirectory _ => some (.error e)
  | writeText _ _ => some (.error e)
  | rename _ _ => some (.error e)
  | readLine => some (.error e)
  | print _ => none
  | now => none
  | tell _ => none

/-- A request that cannot fail. -/
def sure : Request → Bool
  | print _ => true
  | now => true
  | tell _ => true
  | _ => false

theorem sureFails {r : Request} (sure : r.sure = true) (e : FileError) : r.failed? e = none := by
  cases r <;> first | rfl | cases sure

end Request

/-- What a request can be answered, and what it leaves. That nothing lies at a path is never said by
mistake. -/
inductive Happens (w : World) : (r : Request) → r.Answer → World → Prop where
  | answered (r : Request) : Happens w r (w.answer r).1 (w.answer r).2
  | failed {r : Request} {e : FileError} {answer : r.Answer} (failed : r.failed? e = some answer)
      (present : e ≠ .noEntry) : Happens w r answer w
  | torn {path text : String} {l : Location} (e : FileError) (data : FileData)
      (located : w.volume.locate w.here .file path = .ok l)
      (plain : w.volume.node? l ≠ some .directory) :
      Happens w (.writeText path text) (Except.error e : Except FileError Unit)
        { w with volume := w.volume.insert l (.file data) }

namespace Program

/-- A program can get to what is left of it and to the world then, if it is not stopped before. -/
inductive Reaches {α : Type} : Program α → World → Program α → World → Prop where
  | here (p : Program α) (w : World) : Reaches p w p w
  | step {r : Request} {next : r.Answer → Program α} {w between after : World} {answer : r.Answer}
      {q : Program α} (happens : Happens w r answer between)
      (rest : Reaches (next answer) between q after) : Reaches (ask r next) w q after

section Runs
variable {α β : Type} {p : Program α} {f : α → Program β} {w after : World} {a : α}
  {allowed : Request → Bool}

theorem reachesRun (p : Program α) (w : World) : p.Reaches w (pure (p.run w).1) (p.run w).2 := by
  induction p generalizing w with
  | done a => exact .here _ _
  | ask r next ih => exact .step (.answered r) (ih _ _)

theorem reachesDone {q : Program α} (reached : (pure a : Program α).Reaches w q after) :
    q = pure a ∧ after = w := by
  cases reached
  exact ⟨rfl, rfl⟩

theorem reachesBind {q : Program β} (reached : (p >>= f).Reaches w q after) :
    (∃ rest, p.Reaches w rest after ∧ q = rest >>= f ∧ ∀ b, q ≠ pure b) ∨
      ∃ a between, p.Reaches w (pure a) between ∧ (f a).Reaches between q after := by
  induction p generalizing w with
  | done a => exact .inr ⟨a, w, .here _ _, reached⟩
  | ask r next ih =>
    cases reached with
    | here => exact .inl ⟨_, .here _ _, rfl, fun b same => by cases same⟩
    | step happens rest =>
      rcases ih _ rest with ⟨left, first, same, unfinished⟩ | ⟨a, between, first, last⟩
      · exact .inl ⟨left, .step happens first, same, unfinished⟩
      · exact .inr ⟨a, between, .step happens first, last⟩

theorem reachesEnd {b : β} (reached : (p >>= f).Reaches w (pure b) after) :
    ∃ a between, p.Reaches w (pure a) between ∧ (f a).Reaches between (pure b) after := by
  rcases reachesBind reached with ⟨_, _, _, unfinished⟩ | split
  · exact absurd rfl (unfinished b)
  · exact split

theorem reachesKeep (kept : World → Prop) (asks : p.Asks allowed)
    (step : ∀ {r w answer after}, allowed r = true → kept w → Happens w r answer after → kept after)
    {q : Program α} (reached : p.Reaches w q after) (before : kept w) : kept after := by
  induction reached with
  | here p w => exact before
  | step happens rest ih => exact ih (asks.2 _) (step asks.1 before happens)

theorem reachesSure (asks : p.Asks Request.sure) (reached : p.Reaches w (pure a) after) :
    p.run w = (a, after) := by
  induction p generalizing w with
  | done b =>
    obtain ⟨same, rfl⟩ := reachesDone reached
    cases same
    rfl
  | ask r next ih =>
    cases reached with
    | step happens rest =>
      cases happens with
      | answered => exact ih _ (asks.2 _) rest
      | failed failed => simp [Request.sureFails asks.1] at failed
      | torn => cases asks.1

theorem sureTellAll (es : List Event) : (tellAll es).Asks Request.sure := by
  induction es with
  | nil => exact asksPure ()
  | cons e es ih => exact asksBind (asksRequest rfl) fun _ => ih

/-- A program that only reads changes no file, whatever happens to it. -/
theorem reachesReading (asks : p.Asks Request.reads) {q : Program α} (reached : p.Reaches w q after) :
    after.volume = w.volume ∧ after.here = w.here ∧ after.clock = w.clock := by
  refine reachesKeep (fun u => u.volume = w.volume ∧ u.here = w.here ∧ u.clock = w.clock) asks ?_
    reached ⟨rfl, rfl, rfl⟩
  intro r u answer after reads before happens
  cases happens with
  | answered =>
    obtain ⟨es, told⟩ := answerReads (w := u) reads
    rw [told]
    exact before
  | failed => exact before
  | torn => cases reads

end Runs
end Program

namespace Settings
open Program (asksBind asksPure reachesDone reachesEnd reachesSure sureTellAll)

/-- What is made of the text of the settings file, or of its absence. -/
def takeIn (path : String) : Except FileError String → Program (Except SettingsError Settings)
  | .error .noEntry => return .ok initial
  | .error e => return .error (.inaccessible path e)
  | .ok text =>
    match ofText? text with
    | none => return .error (.malformed path)
    | some (s, events) => do
      Program.tellAll events
      match s.validate with
      | .ok () => return .ok s
      | .error e => return .error (.invalid e)

theorem loadTakesIn (path : String) : load path = Program.readText path >>= takeIn path := rfl

theorem sureTakeIn (path : String) (answer : Except FileError String) :
    (takeIn path answer).Asks Request.sure := by
  cases answer with
  | error e => cases e <;> exact asksPure _
  | ok text =>
    simp only [takeIn]
    cases ofText? text with
    | none => exact asksPure _
    | some found =>
      refine asksBind (sureTellAll found.2) fun _ => ?_
      cases found.1.validate <;> exact asksPure _

theorem takeInLost {path : String} {e : FileError} (present : e ≠ .noEntry) :
    takeIn path (.error e) = pure (.error (.inaccessible path e)) := by
  cases e <;> first | rfl | exact absurd rfl present

/-- Settings that were loaded, whatever could have happened, are those that are there. -/
theorem loadReached {path : String} {s : Settings} {w after : World}
    (reached : (load path).Reaches w (pure (.ok s)) after) : ((load path).run w).1 = .ok s := by
  rw [loadTakesIn] at reached ⊢
  obtain ⟨answer, between, read, rest⟩ := reachesEnd reached
  cases read with
  | step happens last =>
    obtain ⟨same, rfl⟩ := reachesDone last
    cases same
    cases happens with
    | answered =>
      rw [Program.run_bind]
      exact congrArg Prod.fst (reachesSure (sureTakeIn _ _) rest)
    | failed failed present =>
      cases failed
      rw [takeInLost present] at rest
      cases (reachesDone rest).1

end Settings


namespace Job
open Program (reachesDone reachesEnd)
variable {α β : Type} {w after : World}

theorem reachesJob {job : Job α} {f : α → Job β} {answer : Except Failure β}
    (reached : (job >>= f).run.Reaches w (pure answer) after) :
    (∃ e, job.run.Reaches w (pure (.error e)) after ∧ answer = .error e) ∨
      ∃ a between, job.run.Reaches w (pure (.ok a)) between ∧
        (f a).run.Reaches between (pure answer) after := by
  rw [ExceptT.run_bind] at reached
  obtain ⟨result, between, first, rest⟩ := reachesEnd reached
  cases result with
  | error e =>
    obtain ⟨same, rfl⟩ := reachesDone rest
    cases same
    exact .inl ⟨e, first, rfl⟩
  | ok a => exact .inr ⟨a, between, first, rest⟩

theorem reachesOrFail {ε : Type} {p : Program (Except ε α)} {failure : ε → Failure}
    {answer : Except Failure α} (reached : (orFail p failure).run.Reaches w (pure answer) after) :
    match answer with
    | .ok a => p.Reaches w (pure (.ok a)) after
    | .error cause => ∃ e, p.Reaches w (pure (.error e)) after ∧ cause = failure e := by
  obtain ⟨result, between, first, rest⟩ := reachesEnd (p := p) reached
  cases result with
  | error e =>
    obtain ⟨same, rfl⟩ := reachesDone rest
    cases same
    exact ⟨e, first, rfl⟩
  | ok a =>
    obtain ⟨same, rfl⟩ := reachesDone rest
    cases same
    exact first

theorem reachesPrint {text : String} {answer : Except Failure Unit}
    (reached : (print text).run.Reaches w (pure answer) after) :
    answer = .ok () ∧ after.volume = w.volume := by
  cases reached with
  | step happens rest =>
    obtain ⟨same, rfl⟩ := reachesDone rest
    cases same
    cases happens with
    | answered => exact ⟨rfl, rfl⟩
    | failed failed => cases failed

end Job
end BackupRotation
