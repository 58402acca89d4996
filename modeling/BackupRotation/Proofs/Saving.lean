import BackupRotation.Proofs.Mishaps
import BackupRotation.Proofs.Replacement
/-! Saving the settings, whatever happens on the way. Until the new file has its name the path leads to
what it led to before; from then on it leads to the whole new text, and the saving has succeeded. -/
namespace BackupRotation

namespace Request

/-- A request that reads, or that makes one of the directories. -/
def makes (paths : List String) (r : Request) : Bool :=
  r.reads || match r with
    | createDirectory p => decide (p ∈ paths)
    | _ => false

end Request

namespace Program
variable {α : Type} {p q : Program α} {w after : World}

theorem happensHere {r : Request} {answer : r.Answer} (happens : Happens w r answer after) :
    after.here = w.here ∧ after.clock = w.clock := by
  have change (changed : Except FileError Volume) :
      (w.change changed).2.here = w.here ∧ (w.change changed).2.clock = w.clock := by
    cases changed <;> exact ⟨rfl, rfl⟩
  cases happens with
  | answered =>
    cases r with
    | removeFile path => exact change _
    | createDirectory path => exact change _
    | writeText path text => exact change _
    | rename source target => exact change _
    | _ => exact ⟨rfl, rfl⟩
  | failed => exact ⟨rfl, rfl⟩
  | torn => exact ⟨rfl, rfl⟩

theorem reachesHere (reached : p.Reaches w q after) : after.here = w.here ∧ after.clock = w.clock := by
  induction reached with
  | here p w => exact ⟨rfl, rfl⟩
  | step happens rest ih =>
    obtain ⟨here, clock⟩ := happensHere happens
    exact ⟨ih.1.trans here, ih.2.trans clock⟩

theorem reachesRequest {r : Request} {q : Program r.Answer} (reached : (request r).Reaches w q after) :
    (q = request r ∧ after = w) ∨ ∃ answer, q = pure answer ∧ Happens w r answer after := by
  cases reached with
  | here => exact .inl ⟨rfl, rfl⟩
  | step happens rest =>
    obtain ⟨rfl, rfl⟩ := reachesDone rest
    exact .inr ⟨_, rfl, happens⟩

theorem reachesAnswer {r : Request} {answer : r.Answer}
    (reached : (request r).Reaches w (pure answer) after) : Happens w r answer after := by
  rcases reachesRequest reached with ⟨same, _⟩ | ⟨given, same, happens⟩
  · cases same
  · cases same
    exact happens

theorem happensWrite {path text : String} {answer : Except FileError Unit}
    (happens : Happens w (.writeText path text) answer after) :
    (after = w ∧ answer ≠ .ok ()) ∨ ∃ l data, w.volume.locate w.here .file path = .ok l ∧
      w.volume.node? l ≠ some .directory ∧
      after = { w with volume := w.volume.insert l (.file data) } ∧
        (answer = .ok () → data = ⟨.text text, 0, w.clock⟩) := by
  cases happens with
  | answered =>
    simp only [World.answer]
    cases written : w.volume.writeText w.here w.clock path text with
    | error e => exact .inl ⟨rfl, by simp [World.change]⟩
    | ok v =>
      obtain ⟨l, located, plain, rfl⟩ := Volume.writtenTo written
      exact .inr ⟨l, _, located, plain, rfl, fun _ => rfl⟩
  | failed failed =>
    cases failed
    exact .inl ⟨rfl, by simp⟩
  | torn e data located plain => exact .inr ⟨_, data, located, plain, rfl, by simp⟩

theorem happensRename {source target : String} {answer : Except FileError Unit}
    (happens : Happens w (.rename source target) answer after) :
    (after = w ∧ answer ≠ .ok ()) ∨ (answer = .ok () ∧
      ∃ v, w.volume.rename w.here source target = .ok v ∧ after = { w with volume := v }) := by
  cases happens with
  | answered =>
    simp only [World.answer]
    cases renamed : w.volume.rename w.here source target with
    | error e => exact .inl ⟨rfl, by simp [World.change]⟩
    | ok v => exact .inr ⟨rfl, v, rfl, rfl⟩
  | failed failed =>
    cases failed
    exact .inl ⟨rfl, by simp⟩

theorem happensMakes {paths : List String} {r : Request} {answer : r.Answer}
    (makes : r.makes paths = true) (happens : Happens w r answer after) :
    after.volume = w.volume ∨ ∃ path ∈ paths, w.volume.createDirectory w.here path = .ok after.volume := by
  cases happens with
  | failed => exact .inl rfl
  | torn => cases makes
  | answered =>
    by_cases reads : r.reads = true
    · obtain ⟨es, told⟩ := answerReads (w := w) reads
      exact .inl (by rw [told])
    · cases r with
      | createDirectory path =>
        have member : path ∈ paths := by simpa [Request.makes, Request.reads] using makes
        simp only [World.answer]
        cases made : w.volume.createDirectory w.here path with
        | error e => exact .inl rfl
        | ok v => exact .inr ⟨path, member, made⟩
      | _ => first | exact absurd rfl reads | cases makes

end Program

namespace Settings
open Program (asksBind asksPure asksRequest happensRename happensWrite reachesAnswer reachesBind
  reachesDone reachesEnd reachesHere reachesKeep reachesRequest)
open Volume (Beside Climbs Prepared Rooted Unlinked origin route)

section Parents
variable {paths : List String}

theorem makesDirectory {path : String} (member : path ∈ paths) :
    (createDirectory path).Asks (Request.makes paths) := by
  refine asksBind (asksRequest (by simp [Request.makes, member])) fun answer => ?_
  cases answer with
  | ok u => exact asksPure _
  | error e =>
    refine asksBind (asksBind (asksRequest rfl) fun found => ?_) fun there => ?_
    · cases found with
      | error e => exact asksPure _
      | ok status => cases status <;> exact asksPure _
    · cases there <;> exact asksPure _

theorem makesDirectories (ps : List String) (members : ∀ p ∈ ps, p ∈ paths) :
    (createDirectories ps).Asks (Request.makes paths) := by
  induction ps with
  | nil => exact asksPure _
  | cons path above ih =>
    obtain ⟨first, rest⟩ := List.forall_mem_cons.mp members
    refine asksBind (makesDirectory first) fun answer => ?_
    cases answer with
    | ok u => exact asksPure _
    | error e =>
      cases e with
      | noEntry =>
        refine asksBind (ih rest) fun made => ?_
        cases made with
        | ok u => exact makesDirectory first
        | error e => exact asksPure _
      | _ => exact asksPure _

theorem makesParent {path parent : String} (above : Path.parent? path = some parent) :
    (createParent path).Asks (Request.makes (Path.ancestors parent)) := by
  rw [createParent, above]
  exact makesDirectories _ fun _ member => member

theorem preparedReached {α : Type} {start : Location} {steps : List String} {p q : Program α}
    {w after : World} (rooted : w.volume.Rooted) (climbs : Climbs w.volume start steps)
    (parts : ∀ path ∈ paths, Volume.steps path <+: steps ∧ origin w.here path = start)
    (asks : p.Asks (Request.makes paths)) (reached : p.Reaches w q after) :
    Prepared w.volume after.volume start steps := by
  have kept := reachesKeep (fun u => Prepared w.volume u.volume start steps ∧ u.here = w.here) asks ?_
    reached ⟨Volume.preparedSelf rooted steps, rfl⟩
  · exact kept.1
  · intro r u answer after makes before happens
    obtain ⟨prepared, here⟩ := before
    refine ⟨?_, (Program.happensHere happens).1.trans here⟩
    rcases Program.happensMakes makes happens with same | ⟨path, member, made⟩
    · rwa [same]
    · obtain ⟨part, root⟩ := parts path member
      exact Volume.preparedMade rooted climbs prepared part (here ▸ root) made

end Parents

/-- A path at which the settings are safe: it goes back up only from directories that are there, and no
link lies at it or at the temporary path. -/
structure Safe (v : Volume) (here : Location) (path : String) : Prop where
  rooted : v.Rooted
  climbs : Climbs v (origin here path) (Volume.steps path)
  unlinked : Unlinked v here path
  unlinkedTemporary : Unlinked v here (temporary path)

section Saves
variable {w after : World} {path text : String} {q : Program (Except FileError Unit)}

/-- With its parent directories made the path leads to the same file, and there is room beside it. -/
theorem parentReached (safe : Safe w.volume w.here path) (reached : (createParent path).Reaches w q after) :
    after.volume.file? w.here path = w.volume.file? w.here path ∧
      Beside after.volume w.here (temporary path) path := by
  -- a path that does not end in a name leads to no file at any time
  rcases List.eq_nil_or_concat (route path) with nowhere | ⟨base, name, ends⟩
  · rw [Volume.fileNowhere nowhere, Volume.fileNowhere nowhere]
    exact ⟨rfl, Volume.besideNowhere nowhere⟩
  rw [List.concat_eq_append] at ends
  by_cases seen : name ≠ "" ∧ name ≠ "."
  · obtain ⟨parent, above, parts⟩ := Path.parentNamed ends seen
    have climbs : Climbs w.volume (origin w.here path) base := by
      intro xs ys same
      refine safe.climbs xs (ys ++ [name]) ?_
      rw [(Path.namedSteps ends seen).2, same]
      simp
    have prepared : Prepared w.volume after.volume (origin w.here path) base :=
      preparedReached safe.rooted climbs
        (fun a member => ⟨(parts a member).1, Path.originSame _ (parts a member).2⟩)
        (makesParent above) reached
    by_cases up : name = ".."
    · subst up
      rw [Volume.fileUp safe.rooted ends, Volume.fileUp prepared.rooted ends]
      have ends' : route (temporary path) = base ++ [".."] := by
        rw [temporary, Path.extensionUp ends seen rfl]
        exact ends
      exact ⟨rfl, Volume.besideUp prepared.rooted ends'⟩
    · have proper : name ≠ "" ∧ name ≠ "." ∧ name ≠ ".." := ⟨seen.1, seen.2, up⟩
      obtain ⟨last, apart, leads, ends', root⟩ := Path.extensionNamed ends seen up "toml.tmp"
        (by decide) (by decide)
      have root := Path.originSame w.here root
      refine ⟨Volume.preparedFile safe.rooted ends proper prepared, ?_⟩
      rcases leads with rfl | proper'
      · exact Volume.besideUp prepared.rooted ends'
      · exact Volume.besideNamed ends proper ends' proper' apart root
          (Volume.preparedUnlinked safe.rooted ends proper prepared safe.unlinked)
          (Volume.preparedUnlinked safe.rooted ends' proper' (root ▸ prepared) safe.unlinkedTemporary)
  · have void : name = "" ∨ name = "." := by
      by_contra other
      exact seen (not_or.mp other)
    rw [Volume.fileVoid ends void, Volume.fileVoid ends void]
    exact ⟨rfl, Volume.besideVoid ends void⟩

theorem writeLeaves {answer : Except FileError Unit}
    (beside : Beside w.volume w.here (temporary path) path)
    (happens : Happens w (.writeText (temporary path) text) answer after) :
    after.volume.file? w.here path = w.volume.file? w.here path := by
  rcases happensWrite happens with ⟨rfl, _⟩ | ⟨l, data, located, plain, rfl, _⟩
  · rfl
  · exact beside.written located plain

theorem replaceReached (beside : Beside w.volume w.here (temporary path) path)
    (reached : (replaceText path text).Reaches w q after) :
    (q ≠ pure (.ok ()) → after.volume.file? w.here path = w.volume.file? w.here path) ∧
      (q = pure (.ok ()) → after.volume.file? w.here path = some ⟨.text text, 0, w.clock⟩) := by
  rcases reachesBind reached with ⟨_, first, _, unfinished⟩ | ⟨answer, between, first, last⟩
  · refine ⟨fun _ => ?_, fun finished => absurd finished (unfinished _)⟩
    rcases reachesRequest first with ⟨_, rfl⟩ | ⟨answer, _, happens⟩
    · rfl
    · exact writeLeaves beside happens
  have written := reachesAnswer first
  have kept := writeLeaves beside written
  cases answer with
  | error e =>
    obtain ⟨rfl, rfl⟩ := reachesDone last
    exact ⟨fun _ => kept, fun finished => by cases finished⟩
  | ok u =>
    rcases reachesRequest last with ⟨rfl, rfl⟩ | ⟨answer, rfl, happens⟩
    · exact ⟨fun _ => kept, fun finished => by cases finished⟩
    · rcases happensRename happens with ⟨rfl, failed⟩ | ⟨rfl, v, renamed, rfl⟩
      · exact ⟨fun _ => kept, fun finished => absurd (Program.done.inj finished) failed⟩
      · refine ⟨fun unfinished => absurd rfl unfinished, fun _ => ?_⟩
        rcases happensWrite written with ⟨_, failed⟩ | ⟨l, data, located, plain, rfl, whole⟩
        · exact absurd rfl failed
        · rw [beside.renamed located plain renamed, whole rfl]

/-- Wherever a saving is stopped or fails, the path leads to the file that it led to before; where it has
succeeded, to the whole text. -/
theorem saveReached {s : Settings} {q : Program (Except SettingsError Unit)}
    (safe : Safe w.volume w.here path) (reached : (s.save path).Reaches w q after) :
    (q ≠ pure (.ok ()) → after.volume.file? w.here path = w.volume.file? w.here path) ∧
      (q = pure (.ok ()) → ∃ text, s.toText? = some text ∧
        after.volume.file? w.here path = some ⟨.text text, 0, w.clock⟩) := by
  rcases reachesBind reached with ⟨_, first, _, unfinished⟩ | ⟨made, between, first, last⟩
  · exact ⟨fun _ => (parentReached safe first).1, fun finished => absurd finished (unfinished _)⟩
  obtain ⟨kept, beside⟩ := parentReached safe first
  obtain ⟨here, clock⟩ := reachesHere first
  cases made with
  | error e =>
    obtain ⟨rfl, rfl⟩ := reachesDone last
    exact ⟨fun _ => kept, fun finished => by cases finished⟩
  | ok u =>
    simp only at last
    cases written : s.toText? with
    | none =>
      rw [written] at last
      obtain ⟨rfl, rfl⟩ := reachesDone last
      exact ⟨fun _ => kept, fun finished => by cases finished⟩
    | some text =>
      rw [written] at last
      rw [← here] at beside kept ⊢
      rw [← kept, ← clock]
      rcases reachesBind last with ⟨rest, first, rfl, unfinished⟩ | ⟨answer, _, first, last⟩
      · refine ⟨fun _ => (replaceReached beside first).1 ?_, fun finished => absurd finished (unfinished _)⟩
        rintro rfl
        exact unfinished _ rfl
      · obtain ⟨before, new⟩ := replaceReached beside first
        cases answer with
        | error e =>
          obtain ⟨rfl, rfl⟩ := reachesDone last
          exact ⟨fun _ => before (fun same => by cases same), fun finished => by cases finished⟩
        | ok u =>
          obtain ⟨rfl, rfl⟩ := reachesDone last
          exact ⟨fun unfinished => absurd rfl unfinished, fun _ => ⟨text, rfl, new rfl⟩⟩

end Saves
end Settings
end BackupRotation
