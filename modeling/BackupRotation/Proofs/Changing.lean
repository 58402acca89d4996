import BackupRotation.Job.Settings
import BackupRotation.Proofs.Reload
import BackupRotation.Proofs.Saving
/-! Changing a setting in its file. A change that fails, at whatever request, leaves the file that was
there; one that succeeds leaves a file from which the settings are loaded as they were, with the one
setting changed. -/
namespace BackupRotation

namespace Settings
open Volume (fileIff)

section Files
variable {s : Settings} {w : World} {path key value text : String}

theorem setPasses (passed : (s.set key value).2 = .ok ()) : (s.set key value).1.validate = .ok () := by
  obtain ⟨k, t, _, _, same, valid⟩ := setDone passed
  rw [same]
  exact valid

theorem loadIff : ((load path).run w).1 = .ok s ↔
    (w.volume.readText w.here path = .error .noEntry ∧ s = initial) ∨
      ∃ text events, w.volume.readText w.here path = .ok text ∧ ofText? text = some (s, events) ∧
        s.validate = .ok () := by
  rw [loadTakesIn, Program.run_bind]
  have answered : ((Program.readText path).run w).1 = w.volume.readText w.here path := rfl
  rw [answered]
  cases w.volume.readText w.here path with
  | error e => cases e <;> simp [takeIn, Program.run_pure, eq_comm]
  | ok text =>
    simp only [takeIn]
    cases understood : ofText? text with
    | none => simp [Program.run_pure, understood]
    | some found =>
      obtain ⟨t, events⟩ := found
      simp only [Program.run_bind]
      constructor
      · intro loaded
        cases valid : t.validate with
        | error e => simp [valid, Program.run_pure] at loaded
        | ok u =>
          obtain rfl : t = s := by simpa [valid, Program.run_pure] using loaded
          exact .inr ⟨text, events, rfl, understood, valid⟩
      · rintro (⟨absent, _⟩ | ⟨_, _, same, again, valid⟩)
        · cases absent
        · cases same
          cases understood.symm.trans again
          simp [valid, Program.run_pure]

theorem loadedReached (loaded : ((load path).run w).1 = .ok s) : Reached s := by
  rcases loadIff.mp loaded with ⟨_, rfl⟩ | ⟨text, events, _, understood, _⟩
  · exact .initial
  · exact .read understood

theorem readFile {now : Instant} (file : w.volume.file? w.here path = some ⟨.text text, 0, now⟩) :
    w.volume.readText w.here path = .ok text := by
  unfold Volume.file? at file
  split at file
  · rename_i found
    cases file
    simp [Volume.readText, found, bind, Except.bind, FileData.text?, Octets.text?]
  · cases file

end Files
end Settings

namespace Job
open Program (reachesDone reachesHere reachesReading)
open Report (lines)
open Settings (ReadsBack Safe loadIff loadReached loadedReached reachedCoherent readFile saveReached
  setCoherent setPasses textRead toTextIff)

/-- What a change does once the settings are loaded. -/
def change (path key value : String) (s : Settings) : Job Unit := do
  ofExcept (s.set key value).2 .value
  orFail ((s.set key value).1.save path) .settings
  print (lines (Report.Settings.changed key value))

theorem setLoads (path key value : String) : setSetting (some path) key value =
    orFail (Settings.load path) .settings >>= change path key value := by
  simp only [setSetting, loadSettings, location, pure_bind]
  rfl

theorem changeReached {w after : World} {path key value : String} {s : Settings}
    {result : Except Failure Unit} (safe : Safe w.volume w.here path)
    (ran : (change path key value s).run.Reaches w (pure result) after) :
    (∀ e, result = .error e → after.volume.file? w.here path = w.volume.file? w.here path) ∧
      (result = .ok () → (s.set key value).2 = .ok () ∧ ∃ text,
        (s.set key value).1.toText? = some text ∧
          after.volume.file? w.here path = some ⟨.text text, 0, w.clock⟩) := by
  rcases reachesJob ran with ⟨e, first, rfl⟩ | ⟨_, between, first, rest⟩
  · obtain ⟨_, checked, _⟩ := reachesOrFail first
    obtain ⟨_, rfl⟩ := reachesDone checked
    exact ⟨fun _ _ => rfl, fun finished => by cases finished⟩
  have checked := reachesOrFail first
  obtain ⟨passed, rfl⟩ := reachesDone checked
  rcases reachesJob rest with ⟨e, save, rfl⟩ | ⟨_, between', save, last⟩
  · obtain ⟨cause, failed, _⟩ := reachesOrFail save
    exact ⟨fun _ _ => (saveReached safe failed).1 (fun same => by cases same),
      fun finished => by cases finished⟩
  · obtain ⟨rfl, volume⟩ := reachesPrint last
    refine ⟨fun _ failed => (by cases failed), fun _ => ⟨(Program.done.inj passed).symm, ?_⟩⟩
    rw [volume]
    exact (saveReached safe (reachesOrFail save)).2 rfl

/-- A change of a setting that fails, at whatever request and for whatever reason, leaves the file as it
was. One that succeeds leaves a file from which the settings are loaded as they were, with the change. -/
theorem settingChanged {w after : World} {path key value : String} {result : Except Failure Unit}
    (safe : Safe w.volume w.here path)
    (readsBack : ∀ s t, ((Settings.load path).run w).1 = .ok s →
      (s.set key value).1.toTable? = some t → ReadsBack t)
    (ran : (setSetting (some path) key value).run.Reaches w (pure result) after) :
    (∀ e, result = .error e → after.volume.file? w.here path = w.volume.file? w.here path) ∧
      (result = .ok () → ∃ s, ((Settings.load path).run w).1 = .ok s ∧
        ((Settings.load path).run after).1 = .ok (s.set key value).1) := by
  rw [setLoads] at ran
  rcases reachesJob ran with ⟨e, first, rfl⟩ | ⟨s, between, first, rest⟩
  · obtain ⟨_, read, _⟩ := reachesOrFail first
    have same := (reachesReading (Program.readsLoad path) read).1
    exact ⟨fun _ _ => by rw [same], fun finished => by cases finished⟩
  have read := reachesOrFail first
  obtain ⟨volume, here, _⟩ := reachesReading (Program.readsLoad path) read
  rw [← volume, ← here] at safe ⊢
  obtain ⟨failed, succeeded⟩ := changeReached safe rest
  have loaded := loadReached read
  refine ⟨failed, fun finished => ⟨s, loaded, ?_⟩⟩
  obtain ⟨passed, text, written, file⟩ := succeeded finished
  obtain ⟨t, table, rfl⟩ := toTextIff.mp written
  have coherent := setCoherent (reachedCoherent (loadedReached loaded)) key value
  obtain ⟨events, understood⟩ := textRead coherent table (readsBack s t loaded table)
  have start : after.here = between.here := (reachesHere ran).1.trans here.symm
  rw [← start] at file
  exact loadIff.mpr (.inr ⟨_, events, readFile file, understood, setPasses passed⟩)

theorem settingChangedHeld :
    let misread := Toml.table [("daily", .integer 7), ("kind", .string "smrt")]
    let text := "[retention]\nkind = \"smrt\"\ndaily = 7\n"
    let v : Volume := ⟨[([.text "keeper"], .directory),
      ([.text "keeper", .text "config.toml"], .file ⟨.text text, 0, ⟨0, 0, by decide⟩⟩)], by decide⟩
    let w : World := ⟨v, [], ⟨9, 0, by decide⟩, [], "", []⟩
    let path := "keeper/config.toml"
    let ran := (setSetting (some path) "prune.parallelism" "8").run.run w
    Safe v [] path ∧ ran.1 = .ok () ∧
      ((Settings.load path).run ran.2).1 = .ok ⟨"./backups", .none, 8, some misread⟩ := by
  intro misread text v w path ran
  have level : ".." ∉ Volume.steps path := by decide +kernel
  have there : v.locate [] .name path = .ok [.text "keeper", .text "config.toml"] := by decide +kernel
  have beside : v.locate [] .name (Settings.temporary path) =
      .ok [.text "keeper", .text "config.toml.tmp"] := by decide +kernel
  have file : v.node? [.text "keeper", .text "config.toml"] =
      some (.file ⟨.text text, 0, ⟨0, 0, by decide⟩⟩) := rfl
  have free : v.node? [.text "keeper", .text "config.toml.tmp"] = none := rfl
  have safe : Safe v [] path :=
    ⟨Volume.rootedAll (by decide +kernel),
      fun xs ys same => absurd (same ▸ List.mem_append_right xs List.mem_cons_self) level,
      Volume.unlinkedAt there file (by simp), Volume.unlinkedAt beside free (by simp)⟩
  have understood : Settings.ofText? "[retention]\nkind = \"smrt\"\ndaily = 7\n" =
      some (⟨"./backups", .none, 4, some misread⟩, [.retentionUnreadable]) := by cbv
  have loaded : ((Settings.load path).run w).1 = .ok ⟨"./backups", .none, 4, some misread⟩ :=
    loadIff.mpr (.inr ⟨text, [.retentionUnreadable], by decide +kernel, understood, rfl⟩)
  have changed : (Settings.set ⟨"./backups", .none, 4, some misread⟩ "prune.parallelism" "8").1 =
      ⟨"./backups", .none, 8, some misread⟩ := by cbv
  have readsBack : ∀ s t, ((Settings.load path).run w).1 = .ok s →
      (s.set "prune.parallelism" "8").1.toTable? = some t → ReadsBack t := by
    intro s t found table
    cases loaded.symm.trans found
    rw [changed] at table
    obtain ⟨_, rfl⟩ := Settings.toTableIff.mp table
    unfold ReadsBack
    cbv
  have finished : ran.1 = .ok () := by decide +kernel
  have course : (setSetting (some path) "prune.parallelism" "8").run.Reaches w (pure ran.1) ran.2 :=
    Program.reachesRun _ w
  obtain ⟨s, found, again⟩ := (settingChanged safe readsBack course).2 finished
  cases loaded.symm.trans found
  rw [changed] at again
  exact ⟨safe, finished, again⟩

/-- A path that goes back up from a directory that is missing leads nowhere, and a change makes the
directory before it fails: then the path leads to a file. -/
theorem settingChangedBehindMissing :
    let text := "[prune]\nparallelism = 8\n"
    let v : Volume := ⟨[([.text "config.toml"], .file ⟨.text text, 0, ⟨0, 0, by decide⟩⟩),
      ([.text "config.toml.tmp"], .directory)], by decide⟩
    let w : World := ⟨v, [], ⟨9, 0, by decide⟩, [], "", []⟩
    let path := "x/../config.toml"
    let ran := (setSetting (some path) "prune.parallelism" "2").run.run w
    v.Rooted ∧ v.Unlinked [] path ∧ v.Unlinked [] (Settings.temporary path) ∧
      (∀ s t, ((Settings.load path).run w).1 = .ok s →
        (s.set "prune.parallelism" "2").1.toTable? = some t → ReadsBack t) ∧
      (setSetting (some path) "prune.parallelism" "2").run.Reaches w (pure ran.1) ran.2 ∧
      ran.1 = .error (.settings (.inaccessible path .isDirectory)) ∧
      v.file? [] path = none ∧ ran.2.volume.file? [] path ≠ none := by
  intro text v w path ran
  have nowhere : v.locate [] .name path = .error .noEntry := by decide +kernel
  have nowhere' : v.locate [] .name (Settings.temporary path) = .error .noEntry := by decide +kernel
  have loaded : ((Settings.load path).run w).1 = .ok Settings.initial :=
    loadIff.mpr (.inl ⟨by decide +kernel, rfl⟩)
  refine ⟨Volume.rootedAll (by decide +kernel), ?_, ?_, ?_, Program.reachesRun _ w, by decide +kernel,
    by decide +kernel, by decide +kernel⟩
  · intro l target located
    cases nowhere.symm.trans located
  · intro l target located
    cases nowhere'.symm.trans located
  · intro s t found table
    cases loaded.symm.trans found
    have changed : (Settings.set Settings.initial "prune.parallelism" "2").1 =
        ⟨"./backups", .none, 2, none⟩ := by cbv
    rw [changed] at table
    obtain ⟨_, rfl⟩ := Settings.toTableIff.mp table
    unfold ReadsBack
    cbv

end Job
end BackupRotation
