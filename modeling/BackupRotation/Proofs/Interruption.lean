import BackupRotation.Proofs.Changing
/-! Saving the settings, cut short after any request, in the middle of writing, or by a failure. The new
file takes the place of the old one with one renaming: before it the path leads to what it led to, from
then on to the whole new text. -/
namespace BackupRotation

namespace Request

def renames : Request → Bool
  | rename _ _ => true
  | _ => false

end Request

namespace Program

/-- A request with what it was answered. -/
abbrev Exchange := (r : Request) × r.Answer

/-- What a program can get to, with all that it asked for on the way. -/
inductive Passes {α : Type} : Program α → World → List Exchange → Program α → World → Prop where
  | here (p : Program α) (w : World) : Passes p w [] p w
  | step {r : Request} {next : r.Answer → Program α} {w between after : World} {answer : r.Answer}
      {done : List Exchange} {q : Program α} (happens : Happens w r answer between)
      (rest : Passes (next answer) between done q after) :
      Passes (ask r next) w (⟨r, answer⟩ :: done) q after

section Passes
variable {α β : Type} {p q : Program α} {f : α → Program β} {w after : World} {a : α}
  {done : List Exchange} {allowed : Request → Bool}

theorem passesReached (passes : p.Passes w done q after) : p.Reaches w q after := by
  induction passes with
  | here p w => exact .here p w
  | step happens rest ih => exact .step happens ih

theorem passesRun (p : Program α) (w : World) : ∃ done, p.Passes w done (pure (p.run w).1) (p.run w).2 := by
  induction p generalizing w with
  | done a => exact ⟨[], .here _ _⟩
  | ask r next ih =>
    obtain ⟨done, rest⟩ := ih (w.answer r).1 (w.answer r).2
    exact ⟨_, .step (.answered r) rest⟩

theorem passesDone (passes : (pure a : Program α).Passes w done q after) : done = [] ∧ q = pure a := by
  cases passes
  exact ⟨rfl, rfl⟩

theorem passesRequest {r : Request} {q : Program r.Answer} (passes : (request r).Passes w done q after) :
    (done = [] ∧ q = request r) ∨ ∃ answer, done = [⟨r, answer⟩] ∧ q = pure answer := by
  cases passes with
  | here => exact .inl ⟨rfl, rfl⟩
  | step happens rest =>
    obtain ⟨rfl, rfl⟩ := passesDone rest
    exact .inr ⟨_, rfl, rfl⟩

theorem passesBind {q : Program β} (passes : (p >>= f).Passes w done q after) :
    (∃ rest, p.Passes w done rest after ∧ q = rest >>= f ∧ ∀ b, q ≠ pure b) ∨
      ∃ first last a between, done = first ++ last ∧ p.Passes w first (pure a) between ∧
        (f a).Passes between last q after := by
  induction p generalizing w done with
  | done a => exact .inr ⟨[], done, a, w, rfl, .here _ _, passes⟩
  | ask r next ih =>
    cases passes with
    | here => exact .inl ⟨_, .here _ _, rfl, fun b same => by cases same⟩
    | step happens rest =>
      rcases ih _ rest with ⟨left, first, same, unfinished⟩ | ⟨first, last, a, between, rfl, left, right⟩
      · exact .inl ⟨left, .step happens first, same, unfinished⟩
      · exact .inr ⟨_, last, a, between, rfl, .step happens left, right⟩

theorem passesAsked (asks : p.Asks allowed) (passes : p.Passes w done q after) :
    ∀ x ∈ done, allowed x.1 = true := by
  induction passes with
  | here p w => simp
  | step happens rest ih => exact List.forall_mem_cons.mpr ⟨asks.1, ih (asks.2 _)⟩

end Passes
end Program

namespace Settings
open Program (Exchange asksPure asksWeaken passesAsked passesBind passesDone passesReached passesRequest
  passesRun reachesHere)
open Volume (Climbs Unlinked origin route walkSplit walkStarts fileIff)
variable {s : Settings} {w after : World} {path text : String} {done : List Exchange}

/-- The request that puts the new settings in the place of the old ones, granted. -/
def replacement (path : String) : Exchange :=
  ⟨.rename (temporary path) path, (.ok () : Except FileError Unit)⟩

theorem replacementAbsent (spares : ∀ x ∈ done, x.1.renames = false) : replacement path ∉ done :=
  fun member => by cases spares _ member

theorem parentSpares (path : String) : (createParent path).Asks fun r => !r.renames := by
  cases above : Path.parent? path with
  | none =>
    rw [createParent, above]
    exact asksPure _
  | some parent =>
    refine asksWeaken (fun {r} makes => ?_) (makesParent above)
    cases r <;> first | rfl | cases makes

theorem replacePasses {q : Program (Except FileError Unit)}
    (passes : (replaceText path text).Passes w done q after) :
    replacement path ∈ done ↔ q = pure (.ok ()) := by
  have writing (answer : Except FileError Unit) :
      replacement path ∉ [(⟨.writeText (temporary path) text, answer⟩ : Exchange)] :=
    replacementAbsent (by simp [Request.renames])
  rcases passesBind passes with ⟨rest, first, _, unfinished⟩ | ⟨first, last, answer, between, rfl, left, right⟩
  · have absent : replacement path ∉ done := by
      rcases passesRequest first with ⟨rfl, _⟩ | ⟨answer, rfl, _⟩
      · simp
      · exact writing answer
    exact iff_of_false absent (unfinished _)
  · rcases passesRequest left with ⟨_, other⟩ | ⟨given, rfl, same⟩
    · cases other
    obtain rfl : answer = given := Program.done.inj same
    cases answer with
    | error e =>
      obtain ⟨rfl, rfl⟩ := passesDone right
      exact iff_of_false (by simpa using writing (.error e)) (by rintro ⟨⟩)
    | ok u =>
      rcases passesRequest right with ⟨rfl, rfl⟩ | ⟨answer, rfl, rfl⟩
      · exact iff_of_false (by simpa using writing (.ok u)) (by rintro ⟨⟩)
      · cases answer with
        | error e =>
          refine iff_of_false (fun member => ?_) (by rintro ⟨⟩)
          rcases List.mem_append.mp member with first | last
          · exact writing _ first
          · cases List.mem_singleton.mp last
        | ok u => exact iff_of_true (List.mem_append_right _ (List.mem_singleton_self _)) rfl

/-- A saving has succeeded as soon as the renaming has, and not before. -/
theorem savePasses {q : Program (Except SettingsError Unit)}
    (passes : (s.save path).Passes w done q after) : replacement path ∈ done ↔ q = pure (.ok ()) := by
  have above {done : List Exchange} {q : Program (Except FileError Unit)} {after : World}
      (passes : (createParent path).Passes w done q after) : replacement path ∉ done :=
    replacementAbsent fun x member => by simpa using passesAsked (parentSpares path) passes x member
  rcases passesBind passes with ⟨rest, first, _, unfinished⟩ | ⟨first, last, made, between, rfl, left, right⟩
  · exact iff_of_false (above first) (unfinished _)
  have absent := above left
  cases made with
  | error e =>
    obtain ⟨rfl, rfl⟩ := passesDone right
    exact iff_of_false (by simpa using absent) (by rintro ⟨⟩)
  | ok u =>
    simp only at right
    rw [List.mem_append, or_iff_right absent]
    cases written : s.toText? with
    | none =>
      rw [written] at right
      obtain ⟨rfl, rfl⟩ := passesDone right
      exact iff_of_false (by simp) (by rintro ⟨⟩)
    | some text =>
      rw [written] at right
      rcases passesBind right with ⟨rest, inner, rfl, unfinished⟩ |
        ⟨front, back, answer, _, rfl, inner, ended⟩
      · refine iff_of_false (fun member => ?_) (unfinished _)
        obtain rfl := (replacePasses inner).mp member
        exact unfinished _ rfl
      · have same := replacePasses inner
        cases answer with
        | error e =>
          obtain ⟨rfl, rfl⟩ := passesDone ended
          exact iff_of_false (by simpa using fun m => by cases same.mp m) (by rintro ⟨⟩)
        | ok u =>
          obtain ⟨rfl, rfl⟩ := passesDone ended
          exact iff_of_true (by simpa using same.mpr rfl) rfl

/-- Where a path leads to a file, it goes back up only from directories. -/
theorem fileClimbs {v : Volume} {here : Location} {data : FileData}
    (found : v.file? here path = some data) : Climbs v (origin here path) (Volume.steps path) := by
  obtain ⟨_, l, walked, _⟩ := fileIff.mp found
  intro xs ys whole
  obtain ⟨rest, more⟩ : ∃ rest, route path = xs ++ ".." :: rest := by
    unfold route
    split
    · exact ⟨ys ++ [""], by simp [whole]⟩
    · exact ⟨ys, whole⟩
  rw [more] at walked
  obtain ⟨m, first, last⟩ := walkSplit walked
  exact ⟨m, first, walkStarts last⟩

/-- Wherever a saving is stopped and whatever has failed, the path leads to the file it led to before as
long as the renaming has not succeeded, and to the whole new text once it has. -/
theorem savingStopped {q : Program (Except SettingsError Unit)} (rooted : w.volume.Rooted)
    (unlinked : Unlinked w.volume w.here path) (unlinked' : Unlinked w.volume w.here (temporary path))
    (climbs : w.volume.file? w.here path = none →
      Climbs w.volume (origin w.here path) (Volume.steps path))
    (passes : (s.save path).Passes w done q after) :
    (replacement path ∉ done → after.volume.file? w.here path = w.volume.file? w.here path) ∧
      (replacement path ∈ done → ∃ text, s.toText? = some text ∧
        after.volume.readText w.here path = .ok text) ∧
      ∀ e, q = pure (.error e) → after.volume.file? w.here path = w.volume.file? w.here path := by
  have safe : Safe w.volume w.here path := by
    refine ⟨rooted, ?_, unlinked, unlinked'⟩
    cases found : w.volume.file? w.here path with
    | none => exact climbs found
    | some data => exact fileClimbs found
  obtain ⟨before, new⟩ := saveReached safe (passesReached passes)
  have finished := savePasses passes
  refine ⟨fun absent => before (fun same => absent (finished.mpr same)), fun member => ?_, ?_⟩
  · obtain ⟨text, written, file⟩ := new (finished.mp member)
    have here := (reachesHere (passesReached passes)).1
    rw [← here] at file ⊢
    exact ⟨text, written, readFile file⟩
  · rintro e rfl
    exact before (fun same => by cases same)

/-- The disk is full when a part of the new text is written. -/
theorem savingStoppedTorn :
    let old : FileData := ⟨.text "[prune]\nparallelism = 8\n", 0, ⟨0, 0, by decide⟩⟩
    let part : FileData := ⟨.text "[prune]\npar", 0, ⟨9, 0, by decide⟩⟩
    let v : Volume := ⟨[([.text "config.toml"], .file old)], by decide⟩
    let w : World := ⟨v, [], ⟨9, 0, by decide⟩, [], "", []⟩
    let after : World := { w with volume := v.insert [.text "config.toml.tmp"] (.file part) }
    ∃ done q, (initial.save "config.toml").Passes w done q after ∧
      after.volume.file? [] "config.toml" = some old := by
  intro old part v w after
  let full := FileError.other (FileError.numbered "No space left on device" 28)
  have there : v.locate [] .name "config.toml" = .ok [.text "config.toml"] := by decide +kernel
  have beside : v.locate [] .name (temporary "config.toml") = .ok [.text "config.toml.tmp"] := by
    decide +kernel
  have file : v.node? [.text "config.toml"] = some (.file old) := rfl
  have free : v.node? [.text "config.toml.tmp"] = none := rfl
  have found : v.file? [] "config.toml" = some old := by decide +kernel
  have parent : createParent "config.toml" = pure (.ok ()) := by
    have above : Path.parent? "config.toml" = some "" := by decide +kernel
    rw [createParent, above]
    rfl
  obtain ⟨text, written⟩ : ∃ text, initial.toText? = some text := ⟨_, rfl⟩
  have located : v.locate [] .file (temporary "config.toml") = .ok [.text "config.toml.tmp"] := by
    decide +kernel
  have torn : Happens w (.writeText (temporary "config.toml") text)
      (.error full : Except FileError Unit) after :=
    .torn _ part located (by simp [w, free])
  have passes : (initial.save "config.toml").Passes w
      [⟨.writeText (temporary "config.toml") text, (.error full : Except FileError Unit)⟩]
      (pure (.error (.inaccessible "config.toml" full))) after := by
    simp only [save, parent, written, pure_bind]
    exact .step torn (.here _ _)
  refine ⟨_, _, passes, ?_⟩
  exact ((savingStopped (Volume.rootedAll (by decide +kernel)) (Volume.unlinkedAt there file (by simp))
    (Volume.unlinkedAt beside free (by simp)) (fun absent => by cases found.symm.trans absent)
    passes).2.2 _ rfl).trans found

/-- A path that goes back up from a directory that is missing leads nowhere. The directory is made before
the writing fails, and then the path leads to a file. -/
theorem savingStoppedBehindMissing :
    let old : FileData := ⟨.text "[prune]\nparallelism = 8\n", 0, ⟨0, 0, by decide⟩⟩
    let v : Volume := ⟨[([.text "config.toml"], .file old), ([.text "config.toml.tmp"], .directory)],
      by decide⟩
    let w : World := ⟨v, [], ⟨9, 0, by decide⟩, [], "", []⟩
    let path := "x/../config.toml"
    let ran := (initial.save path).run w
    v.Rooted ∧ Unlinked v [] path ∧ Unlinked v [] (temporary path) ∧
      ran.1 = .error (.inaccessible path .isDirectory) ∧
      ∃ done, (initial.save path).Passes w done (pure ran.1) ran.2 ∧ replacement path ∉ done ∧
        v.file? [] path = none ∧ ran.2.volume.file? [] path = some old := by
  intro old v w path ran
  have nowhere : v.locate [] .name path = .error .noEntry := by decide +kernel
  have nowhere' : v.locate [] .name (temporary path) = .error .noEntry := by decide +kernel
  have failed : ran.1 = .error (.inaccessible path .isDirectory) := by decide +kernel
  obtain ⟨done, passes⟩ := passesRun (initial.save path) w
  have absent : replacement path ∉ done := by
    intro member
    have finished := Program.done.inj ((savePasses passes).mp member)
    cases failed.symm.trans finished
  refine ⟨Volume.rootedAll (by decide +kernel), ?_, ?_, failed, done, passes, absent,
    by decide +kernel, by decide +kernel⟩
  · intro l target located
    cases nowhere.symm.trans located
  · intro l target located
    cases nowhere'.symm.trans located

end Settings
end BackupRotation
