import BackupRotation.Proofs.Deletions
import BackupRotation.Proofs.Survey
import BackupRotation.Proofs.Trimming
/-! The answer of the user to the question of a pruning. It is read once, after all else is settled, and
only `y` or `yes` lets the deletions begin; so does a flag. An answer that cannot be read ends the
pruning. -/
namespace BackupRotation

namespace World

theorem cutLineFirst (cs : List Char) : Text.trim (cutLine cs).1 =
    Text.trim (cs.takeWhile fun c => c ≠ '\n') := by
  have ended : (cutLine cs).1 = cs.takeWhile (fun c => c ≠ '\n') ∨
      (cutLine cs).1 = cs.takeWhile (fun c => c ≠ '\n') ++ ['\n'] := by
    induction cs with
    | nil => exact .inl rfl
    | cons c cs ih =>
      by_cases last : c = '\n'
      · simp [cutLine, last]
      · simpa [cutLine, last] using ih
  rcases ended with same | more
  · rw [same]
  · have newline : Text.Blank ['\n'] := List.forall_mem_singleton.mpr rfl
    have nothing : Text.Blank [] := nofun
    exact more ▸ Text.trimSurrounded nothing newline

end World

namespace Request

def silent : Request → Bool
  | readLine => false
  | _ => true

theorem readsSilent {r : Request} (reading : r.reads = true) : r.silent = true := by
  cases r with
  | readLine => cases reading
  | _ => rfl

end Request

namespace Program
open BackupDirectory
variable {α β : Type}

/-- The program where standard input cannot be read. -/
def deaf (e : FileError) : Program α → Program α
  | done a => done a
  | ask .readLine next => (next (Except.error e : Except FileError String)).deaf e
  | ask r next => ask r fun answer => (next answer).deaf e

theorem deafBind (e : FileError) (p : Program α) (f : α → Program β) :
    (p >>= f).deaf e = p.deaf e >>= fun a => (f a).deaf e := by
  induction p with
  | done a => rfl
  | ask r next ih =>
    cases r with
    | readLine => exact ih _
    | _ => exact congrArg (ask _) (funext fun answer => ih answer)

theorem deafSame (e : FileError) {p : Program α} (silent : p.Asks Request.silent) : p.deaf e = p := by
  induction p with
  | done a => rfl
  | ask r next ih =>
    cases r with
    | readLine => cases silent.1
    | _ => exact congrArg (ask _) (funext fun answer => ih answer (silent.2 answer))

theorem silentDelete (dir id : String) : (delete dir id).Asks Request.silent := by
  by_cases bare : isFileName id
  · rw [deleteReports bare]
    refine asksBind (asksRequest rfl) fun answer => ?_
    cases answer with
    | ok u => exact asksBind (asksRequest rfl) fun _ => asksPure _
    | error e => cases e <;> exact asksPure _
  · simp only [delete, bare]
    exact asksPure _

theorem silentDeleteAll (dir : String) (ds : List Artifact) : (deleteAll dir ds).Asks Request.silent := by
  induction ds with
  | nil => exact asksPure _
  | cons d ds ih => exact asksBind (silentDelete dir d.id) fun _ => asksBind ih fun _ => asksPure _

end Program

namespace Job
open Program (asksBind asksPure asksRequest asksWeaken readsTellAll silentDeleteAll)
open Report (lines)

/-- The job where standard input is as it is, or cannot be read. -/
def hearing {α : Type} (unread : Option FileError) (job : Job α) : Job α :=
  match unread with
  | none => job
  | some e => ExceptT.mk (job.run.deaf e)

section Hearing
variable {α β : Type} {unread : Option FileError}

theorem hearingBind (job : Job α) (f : α → Job β) :
    (job >>= f).hearing unread = job.hearing unread >>= fun a => (f a).hearing unread := by
  cases unread with
  | none => rfl
  | some e =>
    refine ExceptT.ext ?_
    simp only [hearing, ExceptT.run_bind, ExceptT.run_mk, Program.deafBind]
    refine congrArg _ (funext fun answer => ?_)
    cases answer with
    | ok a => rfl
    | error failure => rfl

theorem hearingSame {job : Job α} (silent : job.run.Asks Request.silent) :
    job.hearing unread = job := by
  cases unread with
  | none => rfl
  | some e => exact Program.deafSame e silent

theorem silentDeleteBackups (dir : String) (ds : List Artifact) :
    (deleteBackups dir ds).run.Asks Request.silent := by
  refine asksJob (asksBind ?_ fun _ => asksPure _) fun report => asksRequest rfl
  refine asksBind (silentDeleteAll dir ds) fun os => ?_
  exact asksBind (asksWeaken Request.readsSilent (readsTellAll _)) fun _ => asksPure _

theorem hearingCarried (dryRun yes : Bool) (dir : String) (ds : List Artifact) :
    (carryOut dryRun yes dir ds).hearing unread =
      if dryRun then print (lines Report.Prune.dryRun)
      else if yes then deleteBackups dir ds
      else (confirm ds.length).hearing unread >>= fun agreed =>
        if agreed then deleteBackups dir ds else print (lines Report.Prune.aborted) := by
  have silent (text : String) : (print text).run.Asks Request.silent := asksRequest rfl
  unfold carryOut
  split
  · exact hearingSame (silent _)
  · split
    · exact hearingSame (silentDeleteBackups dir ds)
    · rw [hearingBind]
      refine congrArg _ (funext fun agreed => ?_)
      cases agreed with
      | true => exact hearingSame (silentDeleteBackups dir ds)
      | false => exact hearingSame (silent _)

end Hearing

/-- The user says yes in the first line of the input. -/
def SaysYes (unread : Option FileError) (w : World) : Prop :=
  unread = none ∧
    Text.lower (Text.trim (w.input.takeWhile fun c => c ≠ '\n')) ∈ [['y'], ['y', 'e', 's']]

theorem agreesIff (cs : List Char) : Report.Prune.agrees (String.ofList (World.cutLine cs).1) = true ↔
    Text.lower (Text.trim (cs.takeWhile fun c => c ≠ '\n')) ∈ [['y'], ['y', 'e', 's']] := by
  simp [Report.Prune.agrees, World.cutLineFirst]

section Carried
variable {unread : Option FileError} {dryRun yes : Bool} {dir : String} {ds : List Artifact}
  {w after : World} {tried : List String} {answer : Except Failure Unit}

theorem courseAsked {f : Bool → Job Unit} {backups : Nat}
    (course : ((confirm backups).hearing unread >>= f).run.Course w tried answer after) :
    (tried = [] ∧ after.volume = w.volume ∧ ¬ SaysYes unread w) ∨
      ∃ agreed before, (agreed = true ↔ SaysYes unread w) ∧ before.volume = w.volume ∧
        before.here = w.here ∧ (f agreed).run.Course before tried answer after := by
  cases unread with
  | some e =>
    have asked : (print (Report.Prune.question backups) >>= fun _ => throw (.confirmation e)).run.Course
        w tried answer after := course
    obtain ⟨rfl, _, rfl⟩ := Program.courseDone (coursePrint asked)
    exact .inl ⟨rfl, rfl, by simp [SaysYes]⟩
  | none =>
    simp only [hearing, confirm, bind_assoc] at course
    have asked : (Program.ask .readLine fun line => (orFail (pure line) .confirmation >>= fun answer =>
        pure (Report.Prune.agrees answer) >>= f).run).Course _ tried answer after := coursePrint course
    cases asked with
    | answered rest =>
      refine .inr ⟨Report.Prune.agrees (String.ofList (World.cutLine w.input).1), _, ?_, ?_, ?_, rest⟩
      · simp [SaysYes, agreesIff]
      · rfl
      · rfl

theorem courseConsented
    (course : ((carryOut dryRun yes dir ds).hearing unread).run.Course w tried answer after) :
    (tried = [] ∧ after.volume = w.volume ∧ ¬ (dryRun = false ∧ (yes = true ∨ SaysYes unread w))) ∨
      (dryRun = false ∧ (yes = true ∨ SaysYes unread w) ∧ ∃ before, before.volume = w.volume ∧
        before.here = w.here ∧ (deleteBackups dir ds).run.Course before tried answer after) := by
  rw [hearingCarried] at course
  split at course
  · rename_i rehearsal
    obtain ⟨rfl, _, rfl⟩ := coursePrinted course
    exact .inl ⟨rfl, rfl, by simp [rehearsal]⟩
  · rename_i deletes
    have deletes : dryRun = false := by simpa using deletes
    split at course
    · rename_i flagged
      exact .inr ⟨deletes, .inl flagged, w, rfl, rfl, course⟩
    · rename_i unflagged
      rcases courseAsked course with ⟨untried, still, refused⟩ |
        ⟨agreed, before, said, volume, start, rest⟩
      · exact .inl ⟨untried, still, by simp [unflagged, refused]⟩
      · cases agreed with
        | true => exact .inr ⟨deletes, .inr (said.mp rfl), before, volume, start, rest⟩
        | false =>
          have refused : ¬ SaysYes unread w := fun yes => by simpa using said.mpr yes
          obtain ⟨rfl, _, rfl⟩ := coursePrinted rest
          exact .inl ⟨rfl, volume, by simp [unflagged, refused]⟩

end Carried
end Job
end BackupRotation
