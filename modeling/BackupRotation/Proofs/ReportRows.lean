import BackupRotation.Proofs.Interchange
import BackupRotation.Proofs.ReportLines
/-! The rows of the reports read back. A row gives the name of its backup, whatever characters are in it, and
no other line that stands above or below the rows is read as one. -/
namespace BackupRotation

namespace Text

def beforeEnd? (tail text : List Char) : Option (List Char) :=
  (afterStart? tail.reverse text.reverse).map List.reverse

theorem beforeEnd?_append (tail text : List Char) : beforeEnd? tail (text ++ tail) = some text := by
  simp [beforeEnd?, afterStart?_append]

end Text

namespace Report
open Text

/-- What stands before a gap and a last part in colour, which begins with the code and ends with the stop. -/
def beforePart? (gap code stop : String) (cs : List Char) : Option (List Char) := do
  let front ← beforeEnd? stop.toList cs
  let (before, part) ← splitLast? '\x1b' front
  let _ ← afterStart? code.toList part
  beforeEnd? gap.toList before

theorem beforePart (gap : String) {code : String} (stop : String) {inside : List Char}
    (plain : '\x1b' ∉ code.toList) (inert : Inert inside) (cs : List Char) : beforePart? gap code stop
      (cs ++ gap.toList ++ '\x1b' :: (code.toList ++ inside) ++ stop.toList) = some cs := by
  have free : '\x1b' ∉ code.toList ++ inside := List.not_mem_append plain (inertFree inert (by decide))
  simp only [beforePart?, beforeEnd?_append, splitLast?_append _ free, afterStart?_append,
    Option.bind_eq_bind, Option.bind_some]

/-- Rows begin with a blank, other lines do not. -/
def Flush (l : String) : Prop := l.toList.head? ≠ some ' '

theorem blankMissing {l : String} (flush : Flush l) (head : List Char) :
    afterStart? (' ' :: head) l.toList = none := by
  unfold Flush at flush
  cases start : l.toList with
  | nil => rfl
  | cons c cs =>
    have other : ' ' ≠ c := by
      rintro rfl
      exact flush (by rw [start, List.head?_cons])
    rw [afterStart?, if_neg other]

theorem readNone {α : Type} {read : String → Option α} {ls : List String} (none : ∀ l, Flush l → read l = none)
    (flush : ∀ l ∈ ls, Flush l) : ls.filterMap read = [] :=
  List.filterMap_eq_nil_iff.mpr fun l member => none l (flush l member)

theorem readEach {α β : Type} {read : String → Option β} {row : α → String} {f : α → β} {xs : List α}
    (each : ∀ x, read (row x) = some (f x)) : (xs.map row).filterMap read = xs.map f := by
  rw [List.filterMap_map, ← List.filterMap_eq_map]
  exact congrArg (List.filterMap · xs) (funext each)

theorem readNothing {α β : Type} {read : String → Option β} {row : α → String} {xs : List α}
    (each : ∀ x, read (row x) = none) : (xs.map row).filterMap read = [] :=
  List.filterMap_eq_nil_iff.mpr (List.forall_mem_map.mpr fun x _ => each x)

namespace Prune

/-- The backup that a row of a pruning names. -/
def id? (line : String) : Option String := do
  let rest ← afterStart? "  \x1b[31m-\x1b[39m ".toList line.toList
  let id ← beforePart? " " "[2m(" ")\x1b[0m" rest
  some (String.ofList id)

theorem rowRead (a : Artifact) : id? (row a) = some a.id := by
  have written : (row a).toList = "  \x1b[31m-\x1b[39m ".toList ++ (a.id.toList ++ " ".toList ++
      '\x1b' :: ("[2m(".toList ++ Measure.sizeText a.size.toNat) ++ ")\x1b[0m".toList) := by
    simp [row, size]
  have code : '\x1b' ∉ "[2m(".toList := by decide
  have named := beforePart " " ")\x1b[0m" code (Measure.inertSize a.size.toNat) a.id.toList
  simp only [id?, written, afterStart?_append, named, Option.bind_eq_bind, Option.bind_some,
    String.ofList_toList]

theorem flushNone {l : String} (flush : Flush l) : id? l = none := by
  simp [id?, blankMissing flush]

theorem announcedRead (t : Target) (as : List Artifact) : (Job.announcement t as).filterMap id? =
    (Decision.evaluate as t.policy).delete.map Artifact.id := by
  have above : ∀ l ∈ heading t.dir t.policy as.length, Flush l := by simp [heading, Flush]
  have below (r : Partition) : (intention r).filterMap id? = r.delete.map Artifact.id := by
    rw [intention, List.filterMap_append, readEach rowRead, readNone fun l => flushNone]
    · simp
    · simp [Flush]
  simp only [Job.announcement, List.filterMap_append, readNone (fun l => flushNone) above]
  split
  · rename_i idle
    rw [Job.deletesNothingIff.mp idle, readNone fun l => flushNone]
    · rfl
    · simp [nothing, Flush]
  · exact below _

end Prune

namespace Listing

/-- The backup that a row of the list of backups names. -/
def id? (line : String) : Option String := do
  let rest ← afterStart? "  \x1b[36m".toList line.toList
  let (_, rest) ← splitFirst? '\x1b' rest
  let rest ← afterStart? "[39m  ".toList rest
  let (_, rest) ← splitFirst? ' ' (rest.dropWhile (· = ' '))
  let (_, rest) ← splitFirst? ' ' rest
  let rest ← afterStart? " ".toList rest
  let id ← beforePart? " " "[2m(" ")\x1b[0m" rest
  some (String.ofList id)

theorem sizeParts (n : Nat) : ∃ c figure unit, Measure.sizeText n = c :: figure ++ ' ' :: unit ∧ c ≠ ' ' ∧
    ' ' ∉ figure ∧ ' ' ∉ unit := by
  have unit : ' ' ∉ (Measure.sizeUnit n).name.toList := by cases Measure.sizeUnit n <;> decide
  have free (m : Nat) : ∃ c cs, digits m = c :: cs ∧ c ≠ ' ' ∧ ' ' ∉ cs := by
    obtain ⟨c, cs, written, digit⟩ := digitsFilled m
    have all := digitsFree (c := ' ') rfl (digitsAll m)
    rw [written] at all
    exact ⟨c, cs, written, digitOther digit rfl, fun member => all (List.mem_cons_of_mem c member)⟩
  simp only [Measure.sizeText]
  split
  · obtain ⟨c, cs, written, other, rest⟩ := free n
    exact ⟨c, cs, _, by rw [written], other, rest, unit⟩
  · obtain ⟨c, cs, written, other, rest⟩ := free (Measure.sizeHundredths n / 100)
    have part : ' ' ∉ padded 2 (Measure.sizeHundredths n % 100) := digitsFree rfl (paddedAll _ _)
    exact ⟨c, _, _, by rw [written, List.cons_append], other, by simp [rest, part], unit⟩

theorem rowRead (now : Instant) (a : Artifact) : id? (row now a) = some a.id := by
  obtain ⟨c, figure, unit, sized, other, figureFree, unitFree⟩ := sizeParts a.size.toNat
  have free : ' ' ∉ c :: figure := List.not_mem_cons_of_ne_of_not_mem other.symm figureFree
  have time : '\x1b' ∉ a.created.tabular := inertFree a.created.inertTabular (by decide)
  obtain ⟨k, written⟩ : ∃ k, (row now a).toList = "  \x1b[36m".toList ++ (a.created.tabular ++ '\x1b' ::
      ("[39m  ".toList ++ (List.replicate k ' ' ++ (c :: figure ++ ' ' :: (unit ++ ' ' :: (" ".toList ++
        (a.id.toList ++ " ".toList ++ '\x1b' :: ("[2m(".toList ++ Measure.ageText (a.created.elapsed now)) ++
          ")\x1b[0m".toList))))))) :=
    ⟨_, by simp [row, age, padLeft, size, sized, Report.time]; rfl⟩
  have padding (rest : List Char) : (List.replicate k ' ' ++ (c :: figure ++ rest)).dropWhile (· = ' ') =
      c :: figure ++ rest := by
    rw [List.dropWhile_append_of_pos (by simp), List.cons_append, List.dropWhile_cons_of_neg (by simpa using other)]
  have code : '\x1b' ∉ "[2m(".toList := by decide
  have named := beforePart " " ")\x1b[0m" code (Measure.inertAge (a.created.elapsed now)) a.id.toList
  simp only [id?, written, afterStart?_append, splitFirst?_append _ time, padding, splitFirst?_append _ free,
    splitFirst?_append _ unitFree, named, Option.bind_eq_bind, Option.bind_some, String.ofList_toList]

theorem flushNone {l : String} (flush : Flush l) : id? l = none := by
  simp [id?, blankMissing flush]

theorem linesRead (dir : String) (now : Instant) (as : List Artifact) :
    (heading dir ++ if as = [] then nothing else table now as).filterMap id? =
      (Artifact.newestFirst as).map Artifact.id := by
  have above : ∀ l ∈ heading dir, Flush l := by simp [heading, Flush]
  have below : ∀ l ∈ ["", total as], Flush l := by simp [total, Flush]
  rw [List.filterMap_append, readNone (fun l => flushNone) above]
  split
  · rename_i empty
    rw [empty, readNone fun l => flushNone]
    · simp [Artifact.newestFirst]
    · simp [nothing, Flush]
  · rw [table, List.filterMap_append, readEach (rowRead now), readNone (fun l => flushNone) below]
    simp

end Listing

namespace Plan

/-- What stands behind the time in a row with a mark. -/
def marked? (mark line : String) : Option (List Char) := do
  let rest ← afterStart? ("  " ++ mark ++ " \x1b[2m").toList line.toList
  let (_, rest) ← splitFirst? '\x1b' rest
  afterStart? "[0m  ".toList rest

/-- The backup that a row of a plan keeps. Reasons stand behind it if they were asked for. -/
def kept? (explain : Bool) (line : String) : Option String := do
  let rest ← marked? "\x1b[32mKEEP  \x1b[39m" line
  let id ← if explain then beforePart? "  " "[36m" "\x1b[39m" rest else some rest
  some (String.ofList id)

/-- The backup that a row of a plan deletes. -/
def deleted? (line : String) : Option String :=
  (marked? "\x1b[31mDELETE\x1b[39m" line).map String.ofList

/-- The second of the anchor of a plan. -/
def anchor? (line : String) : Option Instant := do
  let time ← afterStart? "\x1b[2mAnchor\x1b[0m: ".toList line.toList
  Instant.ofInterchange? (time ++ ['Z'])

section Rows
variable {v : Verdict} {l : String}

theorem markedRead (mark : String) (a : Artifact) (rest : String) :
    marked? mark (row mark a ++ rest) = some (a.id.toList ++ rest.toList) := by
  have time : '\x1b' ∉ a.created.tabular := inertFree a.created.inertTabular (by decide)
  have written : (row mark a ++ rest).toList = ("  " ++ mark ++ " \x1b[2m").toList ++ (a.created.tabular ++
      '\x1b' :: ("[0m  ".toList ++ (a.id.toList ++ rest.toList))) := by
    simp [row, Report.time]
  simp only [marked?, written, afterStart?_append, splitFirst?_append _ time, Option.bind_eq_bind,
    Option.bind_some]

theorem keepMarked (a : Artifact) (rest : String) :
    marked? "\x1b[32mKEEP  \x1b[39m" (row keepMark a ++ rest) = some (a.id.toList ++ rest.toList) ∧
      marked? "\x1b[31mDELETE\x1b[39m" (row keepMark a ++ rest) = none := by
  have mark : keepMark = "\x1b[32mKEEP  \x1b[39m" := by rfl
  refine ⟨mark ▸ markedRead keepMark a rest, ?_⟩
  simp [marked?, row, keepMark, afterStart?]

theorem deleteMarked (a : Artifact) :
    marked? "\x1b[31mDELETE\x1b[39m" (row deleteMark a) = some a.id.toList ∧
      marked? "\x1b[32mKEEP  \x1b[39m" (row deleteMark a) = none := by
  have mark : deleteMark = "\x1b[31mDELETE\x1b[39m" := by rfl
  constructor
  · have read := markedRead deleteMark a ""
    rw [String.append_empty] at read
    simpa [mark] using read
  · simp [marked?, row, deleteMark, afterStart?]

theorem rowKept (a : Artifact) : kept? false (row keepMark a) = some a.id ∧ deleted? (row keepMark a) = none := by
  have marked := keepMarked a ""
  rw [String.append_empty] at marked
  simp [kept?, deleted?, marked]

theorem rowDeleted (explain : Bool) (a : Artifact) :
    deleted? (row deleteMark a) = some a.id ∧ kept? explain (row deleteMark a) = none := by
  simp [kept?, deleted?, deleteMarked a]

theorem verdictKept (keep : v.keep = true) :
    kept? true (verdict v) = some v.artifact.id ∧ deleted? (verdict v) = none := by
  have code : '\x1b' ∉ "[36m".toList := by decide
  have named := beforePart "  " "\x1b[39m" code (Measure.inertReasons v.reasons) v.artifact.id.toList
  let reasons := "  " ++ Style.cyan (String.ofList (Measure.reasonsText v.reasons))
  have written : v.artifact.id.toList ++ reasons.toList = v.artifact.id.toList ++ "  ".toList ++
      '\x1b' :: ("[36m".toList ++ Measure.reasonsText v.reasons) ++ "\x1b[39m".toList := by
    simp [reasons]
  have shown : verdict v = row keepMark v.artifact ++ reasons := by
    rw [verdict, if_pos keep, String.append_assoc]
  obtain ⟨kept, other⟩ := keepMarked v.artifact reasons
  simp only [kept?, deleted?, shown, kept, other, written, named, if_true, Option.bind_eq_bind, Option.bind_some,
    Option.map_none, String.ofList_toList, and_self]

theorem verdictDeleted (delete : v.keep = false) :
    deleted? (verdict v) = some v.artifact.id ∧ kept? true (verdict v) = none := by
  have other : ¬v.keep = true := by simp [delete]
  rw [verdict, if_neg other]
  exact rowDeleted true v.artifact

theorem markedNone (mark : String) (flush : Flush l) : marked? mark l = none := by
  simp [marked?, blankMissing flush]

theorem keptNone {explain : Bool} (flush : Flush l) : kept? explain l = none := by
  simp [kept?, markedNone _ flush]

theorem deletedNone (flush : Flush l) : deleted? l = none := by
  simp [deleted?, markedNone _ flush]

end Rows

section Texts
variable {p : BackupRotation.Plan}

theorem textRead {α : Type} {read : String → Option α} (none : ∀ l, Flush l → read l = none) :
    (text p).filterMap read = (rows p).filterMap read := by
  have above : ∀ l ∈ opening p, Flush l := by simp [opening, anchorLine, Flush, or_imp, forall_and]
  have below : ∀ l ∈ "" :: summary p.result, Flush l := by
    unfold summary
    split
    · simp [Flush]
    · simp [Flush]
  rw [textParts, List.filterMap_append, List.filterMap_append, readNone none above, readNone none below]
  simp

theorem partitionRead (plain : p.verdicts = none) :
    (text p).filterMap (kept? false) = p.result.keep.map Artifact.id ∧
      (text p).filterMap deleted? = p.result.delete.map Artifact.id := by
  have shown : rows p = p.result.keep.map (row keepMark) ++ p.result.delete.map (row deleteMark) := by
    simp only [rows, plain, partition]
  rw [textRead fun l => keptNone, textRead fun l => deletedNone, shown]
  constructor
  · rw [List.filterMap_append, readEach fun a => (rowKept a).1, readNothing fun a => (rowDeleted false a).2,
      List.append_nil]
  · rw [List.filterMap_append, readNothing fun a => (rowKept a).2, readEach fun a => (rowDeleted false a).1,
      List.nil_append]

theorem verdictsRead {vs : List Verdict} (explained : p.verdicts = some vs) :
    (text p).filterMap (kept? true) = ((vs.filter fun v => v.keep).map fun v => v.artifact.id) ∧
      (text p).filterMap deleted? = ((vs.filter fun v => !v.keep).map fun v => v.artifact.id) := by
  have shown : rows p = vs.map verdict := by simp only [rows, explained]
  rw [textRead fun l => keptNone, textRead fun l => deletedNone, shown]
  clear shown explained
  induction vs with
  | nil => exact ⟨rfl, rfl⟩
  | cons v vs ih =>
    cases keep : v.keep with
    | true => simp [verdictKept keep, keep, ih]
    | false => simp [verdictDeleted keep, keep, ih]

theorem rowsIndented : ∀ l ∈ rows p, l.toList.head? = some ' ' := by
  have indented (mark : String) (a : Artifact) : (row mark a).toList.head? = some ' ' := by simp [row]
  unfold rows
  split
  · refine List.forall_mem_map.mpr fun v _ => ?_
    unfold verdict
    split
    · simp [row]
    · exact indented deleteMark v.artifact
  · refine List.forall_mem_append.mpr ⟨List.forall_mem_map.mpr fun a _ => indented keepMark a, ?_⟩
    exact List.forall_mem_map.mpr fun a _ => indented deleteMark a

theorem anchorNone {l : String} (indented : l.toList.head? = some ' ') : anchor? l = none := by
  obtain ⟨cs, start⟩ := List.head?_eq_some_iff.mp indented
  simp [anchor?, start, afterStart?]

theorem anchorRead : (text p).filterMap anchor? = (p.anchor.map Instant.wholeSecond).toList := by
  have line (t : Instant) : anchor? (anchorLine t) = some t.wholeSecond := by
    have written : (anchorLine t).toList = "\x1b[2mAnchor\x1b[0m: ".toList ++ t.tabular := by
      simp [anchorLine, Report.time]
    simp only [anchor?, written, afterStart?_append, t.tabularRead, Option.bind_eq_bind, Option.bind_some]
  have titles : [Style.bold "Retention plan for" ++ " " ++ p.dir,
      Style.dim "Policy" ++ ": " ++ Style.cyan p.policy.toText].filterMap anchor? = [] := by
    simp [anchor?, afterStart?]
  have above : (opening p).filterMap anchor? = (p.anchor.map Instant.wholeSecond).toList := by
    rw [opening, List.filterMap_append, List.filterMap_append, titles, readEach line]
    cases p.anchor <;> simp [anchor?, afterStart?]
  have below : ("" :: summary p.result).filterMap anchor? = [] := by
    unfold summary
    split
    · simp [anchor?, afterStart?]
    · simp [anchor?, afterStart?]
  have between : (rows p).filterMap anchor? = [] :=
    List.filterMap_eq_nil_iff.mpr fun l member => anchorNone (rowsIndented l member)
  rw [textParts, List.filterMap_append, List.filterMap_append, above, between, below]
  simp

end Texts
end Plan

end Report
end BackupRotation
