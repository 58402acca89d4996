import BackupRotation.Proofs.Agreement
import BackupRotation.Proofs.ByteOrder
import BackupRotation.Proofs.Verdicts
import Mathlib.Tactic
/-! The rows of the list of backups against a plan that keeps the newest few. Both sort the backups that the
directory gives in the order of their names, so backups of one time stay in that order in both. -/
namespace BackupRotation

namespace Artifact
variable {as : List Artifact}

/-- The newer backup first, and of two of one time the one whose name is first in the order of bytes. -/
def Ahead (a b : Artifact) : Prop := b.created < a.created ∨
  a.created = b.created ∧ (Octets.text a.id).toBytes < (Octets.text b.id).toBytes

theorem newestFirstAhead (named : as.Pairwise fun a b => a.id < b.id) : (newestFirst as).Pairwise Ahead := by
  refine List.pairwise_iff_forall_sublist.mpr fun {a b} inside => ?_
  by_cases newer : b.created < a.created
  · exact .inl newer
  · have later := List.pairwise_iff_forall_sublist.mp (newestFirstSorted as) inside
    have tied : a.created = b.created := Instant.le_antisymm newer later
    have before := List.pairwise_iff_forall_sublist.mp named (tiedSublist tied inside)
    exact .inr ⟨tied, Octets.bytesBefore.mpr before⟩

end Artifact

namespace BackupDirectory
variable {v : Volume} {here : Location} {dir : String} {as : List Artifact}

theorem listingRises (listed : listing v here dir = .ok as) : as.Pairwise fun a b => a.id < b.id := by
  have distinct : as.Pairwise fun a b => a.id ≠ b.id := List.pairwise_map.mp (listingDistinct listed)
  have sorted : as.Pairwise fun a b => a.id ≤ b.id := by
    obtain ⟨_, _, _, _, rfl⟩ := listingIff.mp listed
    simpa only [inOrder, decide_eq_true_eq] using List.pairwise_mergeSort nameTrans nameTotal _
  exact sorted.imp₂ (fun _ _ => lt_of_le_of_ne) distinct

end BackupDirectory

namespace Decision
variable {as : List Artifact}

theorem keepNewest (distinct : (as.map Artifact.id).Nodup) (count : UInt32) :
    (evaluate as (.simple count)).keep =
      (Artifact.newestFirst as).take (min count.toNat (Artifact.newestFirst as).length) := by
  rw [keepDistinct distinct, List.take_eq_take_min]

theorem deleteOldest (distinct : (as.map Artifact.id).Nodup) (count : UInt32) :
    (evaluate as (.simple count)).delete =
      (Artifact.newestFirst as).drop (min count.toNat (Artifact.newestFirst as).length) := by
  rw [deleteDistinct distinct, List.drop_eq_drop_min]

end Decision

namespace Job
open Report (lines OneLine Printed)

def listFound : Target × List Artifact → Job Unit
  | (t, as) => do
    print (lines (Report.Listing.heading t.dir))
    if as.isEmpty then print (lines Report.Listing.nothing)
    else
      let now ← ofProgram Program.now
      print (lines (Report.Listing.table now as))

theorem listSurveyed (location dir : Option String) :
    listBackups location dir = survey location dir none >>= listFound := by
  simp only [listBackups, survey, listFound, bind_assoc, pure_bind]

/-- A policy that is given as a text is not looked for in the settings. -/
theorem planWith {text : String} {p : Policy} (read : Policy.ofText text = .ok p)
    (location dir : Option String) (explain json : Bool) :
    planPruning location dir (some text) explain json = survey location dir none >>=
      fun found => planFound explain json ({ found.1 with policy := p }, found.2) := by
  have given : Job.ofExcept (Except.ok p) (Failure.policyFlag text) = pure p := rfl
  rw [planSurveyed]
  simp only [survey, Target.resolve, Target.policyOf, read, given, bind_assoc, pure_bind]
  rfl

section Listed
variable {t : Target} {as : List Artifact} {w after : World} {tried : List String}
  {answer : Except Failure Unit}

theorem courseListed (course : (listFound (t, as)).run.Course w tried answer after) :
    answer = .ok () ∧ after.volume = w.volume ∧
      after.output = w.output ++ lines (Report.Listing.heading t.dir ++
        if as = [] then Report.Listing.nothing else Report.Listing.table w.clock as) := by
  have said := coursePrint course
  by_cases empty : as = []
  · simp only [empty, List.isEmpty_nil, if_true] at said
    obtain ⟨_, rfl, rfl⟩ := coursePrinted said
    refine ⟨rfl, rfl, ?_⟩
    rw [if_pos empty, linesAppend, String.append_assoc]
  · rw [if_neg (mt List.isEmpty_iff.mp empty)] at said
    obtain ⟨_, _, now, between, _, clock, said⟩ := courseProgram said
    cases clock with
    | answered rest =>
      cases rest
      obtain ⟨_, rfl, rfl⟩ := coursePrinted said
      refine ⟨rfl, rfl, ?_⟩
      rw [if_neg empty, linesAppend, ← String.append_assoc]
      rfl

end Listed

/-- What a list of backups and a plan leave behind where the rows of the list are those of `rows`, and the plan
keeps the first of them, up to `count`, and deletes the others, in the order of the list. -/
structure RowsCut (explain json : Bool) (dir : String) (as rows : List Artifact) (count : Nat)
    (w listed planned : World) : Prop where
  listed : ∃ said ls, listed.output = w.output ++ said ∧ Printed (OneLine dir as) said ls ∧
    ls.filterMap Report.Listing.id? = rows.map Artifact.id
  planned : ∃ said anchor, planned.output = w.output ++ said ∧
    Plan.Told explain json (OneLine dir as) said ((rows.map Artifact.id).take count)
      ((rows.map Artifact.id).drop count) anchor
  complete : rows.Perm as
  ahead : rows.Pairwise Artifact.Ahead

end Job

namespace Command
open BackupDirectory Job
open Report (OneLine Printed)

/-- The text is any that means the newest `n`, whatever its spelling. -/
theorem planCutsRows {location dir : Option String} {text : String} {n : UInt32} {w : World} {t : Target}
    {as : List Artifact} (read : Policy.ofText text = .ok (.simple n))
    (resolved : ((Target.resolve location dir none).run.run w).1 = .ok t)
    (listable : listing w.volume w.here t.dir = .ok as) (explain json : Bool) :
    let listed := ((Command.list dir).job location).run.run w
    let planned := ((Command.plan dir (some text) explain json).job location).run.run w
    let rows := Artifact.newestFirst as
    listed.1 = .ok () ∧ planned.1 = .ok () ∧ listed.2.volume = w.volume ∧ planned.2.volume = w.volume ∧
      RowsCut explain json t.dir as rows (min n.toNat rows.length) w listed.2 planned.2 := by
  intro listed planned rows
  obtain ⟨_, listing⟩ : ∃ none, ((survey location dir .none >>= listFound).run.Course w none listed.1
      listed.2) := listSurveyed .. ▸ Program.courseRun _ w
  obtain ⟨_, planning⟩ : ∃ none, ((survey location dir .none >>= fun found =>
      planFound explain json ({ found.1 with policy := .simple n }, found.2)).run.Course w none planned.1
        planned.2) := planWith read .. ▸ Program.courseRun _ w
  have reads := readsSurvey location dir none
  obtain ⟨_, listing⟩ := courseReading reads listing
  obtain ⟨_, planning⟩ := courseReading reads planning
  rw [surveyOk.mpr ⟨resolved, listable⟩] at listing planning
  obtain ⟨listEnds, listKeeps, listSays⟩ := courseListed listing
  obtain ⟨planEnds, planKeeps, planSays⟩ := coursePlanned planning
  have distinct := listingDistinct listable
  have told := Plan.told t.dir (.simple n) explain as json
  rw [Decision.keepNewest distinct, Decision.deleteOldest distinct, List.map_take, List.map_drop] at told
  have shown := Report.Listing.linesRead t.dir w.clock as
  have printed : Printed (OneLine t.dir as) _ _ := Report.linesPrinted fun oneLine =>
    Report.Listing.linesWhole oneLine w.clock
  exact ⟨listEnds, planEnds, listKeeps, planKeeps, ⟨_, _, listSays, printed, shown⟩, ⟨_, _, planSays, told⟩,
    Artifact.newestFirstPerm as, Artifact.newestFirstAhead (listingRises listable)⟩

theorem planCutsRowsTied :
    let dump (modified : Instant) : Node := .file ⟨.text "dump", 0, modified⟩
    let v : Volume := ⟨[([.text "backups"], .directory),
      ([.text "backups", .text "c"], dump ⟨0, 0, by decide⟩),
      ([.text "backups", .text "a"], dump ⟨0, 0, by decide⟩),
      ([.text "backups", .text "b"], dump ⟨5, 0, by decide⟩)], by decide⟩
    let w : World := ⟨v, [], ⟨9, 0, by decide⟩, [], "", []⟩
    let a : Artifact := ⟨"a", 4, ⟨0, 0, by decide⟩⟩
    let b : Artifact := ⟨"b", 4, ⟨5, 0, by decide⟩⟩
    let c : Artifact := ⟨"c", 4, ⟨0, 0, by decide⟩⟩
    let listed := ((Command.list (some "backups")).job (some "keeper.toml")).run.run w
    let planned :=
      ((Command.plan (some "backups") (some "simple:2") false true).job (some "keeper.toml")).run.run w
    listed.1 = .ok () ∧ planned.1 = .ok () ∧
      RowsCut false true "backups" [a, b, c] [b, a, c] 2 w listed.2 planned.2 := by
  intro dump v w a b c listed planned
  have looked : lookAll v [] "backups" (v.names [.text "backups"]) = .ok [c, a, b] := by decide +kernel
  have listable : listing v [] "backups" = .ok [a, b, c] := by
    rw [listingOf (by decide +kernel) looked]
    cbv
  let t : Target := ⟨"backups", .none, Settings.initial⟩
  have resolved :
      ((Target.resolve (some "keeper.toml") (some "backups") none).run.run w).1 = .ok t := rfl
  have read : Policy.ofText "simple:2" = .ok (.simple 2) := by rfl
  have rows : Artifact.newestFirst [a, b, c] = [b, a, c] := by cbv
  obtain ⟨listEnds, planEnds, _, _, cut⟩ := planCutsRows read resolved listable false true
  rw [rows] at cut
  exact ⟨listEnds, planEnds, cut⟩

end Command
end BackupRotation
