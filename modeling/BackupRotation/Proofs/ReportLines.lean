import BackupRotation.Proofs.Numerals
import BackupRotation.Proofs.Survey
import BackupRotation.Proofs.Survival
/-! Reports as lines. The figures, times and reasons in them have no control characters, so a report whose
names have no line ends in them falls into its lines where it is cut at its line ends. -/
namespace BackupRotation

namespace Text
variable {cs ds : List Char} {c : Char}

/-- The text has no control characters, so no line ends in it and no colour begins. -/
def Inert (cs : List Char) : Prop := ∀ c ∈ cs, 32 ≤ c.toNat
-- along the list: over all characters there would be too many to decide
instance (cs : List Char) : Decidable (Inert cs) := cs.decidableBAll fun c : Char => 32 ≤ c.toNat

theorem inertFree (inert : Inert cs) (control : c.toNat < 32) : c ∉ cs :=
  fun member => Nat.not_le.mpr control (inert c member)

@[simp] theorem inertNil : Inert [] := nofun

@[simp] theorem inertCons : Inert (c :: cs) ↔ 32 ≤ c.toNat ∧ Inert cs := List.forall_mem_cons

@[simp] theorem inertAppend : Inert (cs ++ ds) ↔ Inert cs ∧ Inert ds := List.forall_mem_append

theorem inertNumber (all : ∀ c ∈ ds, isDigit c = true) : Inert ds := by
  intro c member
  have code := digitCode (all c member)
  omega

@[simp] theorem inertDigits (n : Nat) : Inert (digits n) := inertNumber (digitsAll n)

@[simp] theorem inertPadded (width n : Nat) : Inert (padded width n) := inertNumber (paddedAll width n)

/-- A text cut where its lines end. -/
theorem linesCut {ls : List String} (whole : ∀ l ∈ ls, '\n' ∉ l.toList) :
    splitAll '\n' (Report.lines ls).toList = ls.map String.toList ++ [[]] := by
  induction ls with
  | nil => rfl
  | cons l ls ih =>
    obtain ⟨first, rest⟩ := List.forall_mem_cons.mp whole
    have line : (Report.lines (l :: ls)).toList = l.toList ++ '\n' :: (Report.lines ls).toList := by
      simp [Report.lines]
    rw [line, splitAll_append, splitAll_whole first, ih rest]
    rfl

end Text

section Figures
open Text

theorem Measure.inertSize (size : Nat) : Inert (sizeText size) := by
  have unit : Inert (sizeUnit size).name.toList := by cases sizeUnit size <;> decide
  simp only [sizeText]
  split
  · simp [unit]
  · simp [unit]

theorem Measure.inertAge (age : Int) : Inert (ageText age) := by
  simp only [ageText]
  split
  · decide
  · have unit : Inert (ageUnit (age.tdiv 1000000000).toNat).name.toList := by
      cases ageUnit (age.tdiv 1000000000).toNat <;> decide
    simp [unit]

theorem Measure.inertReasons (rs : List Reason) : Inert (reasonsText rs) := by
  have one (r : Reason) : Inert (reasonText r) := by
    cases r with
    | keepAll => decide +kernel
    | recent rank =>
      show Inert ("newest#".toList ++ digits rank)
      exact inertAppend.mpr ⟨by decide +kernel, inertDigits rank⟩
    | slot t index =>
      have tier : Inert t.name.toList := by cases t <;> decide
      show Inert (t.name.toList ++ '#' :: digits index)
      simp [tier]
  induction rs with
  | nil => decide
  | cons r rs ih =>
    cases rs with
    | nil => exact one r
    | cons q rs =>
      rw [reasonsText]
      · simp [one r, ih]
      · simp

theorem Instant.inertTabular (t : Instant) : Inert t.tabular := by
  have year (y : Int) : Inert (yearText y) := by
    unfold yearText
    split
    · simp
    · split
      · simp
      · simp
  simp [tabular, dateText, timeText, year]

theorem Policy.inertText (p : Policy) : Inert p.text := by
  cases p with
  | none => decide +kernel
  | simple n =>
    show Inert ("simple:".toList ++ digits n.toNat)
    exact inertAppend.mpr ⟨by decide +kernel, inertDigits n.toNat⟩
  | smart d w m y =>
    have kind : Inert "smart:".toList := by decide +kernel
    show Inert ("smart:".toList ++ digits d.toNat ++ ',' :: digits w.toNat ++ ',' :: digits m.toNat ++
      ',' :: digits y.toNat)
    simp only [inertAppend, inertCons, inertDigits, kind]
    decide

end Figures

namespace Report
open Text
variable {dir : String} {as : List Artifact}

/-- A text printed line by line. Where `whole` holds, its lines are those that it is cut into. -/
structure Printed (whole : Prop) (text : String) (ls : List String) : Prop where
  joined : text = String.join (ls.map fun l => l ++ "\n")
  cut : whole → splitAll '\n' text.toList = ls.map String.toList ++ [[]]

/-- Neither the directory nor a backup has a line end in its name. -/
def OneLine (dir : String) (as : List Artifact) : Prop :=
  '\n' ∉ dir.toList ∧ ∀ a ∈ as, '\n' ∉ a.id.toList

theorem linesPrinted {whole : Prop} {ls : List String} (unbroken : whole → ∀ l ∈ ls, '\n' ∉ l.toList) :
    Printed whole (lines ls) ls :=
  ⟨rfl, fun oneLine => linesCut (unbroken oneLine)⟩

attribute [simp] Style.bold Style.dim Style.red Style.green Style.yellow Style.cyan Style.emphasis
  Style.colour Style.code

@[simp] theorem countWhole (n : Nat) : '\n' ∉ (count n).toList := by
  simpa [count] using inertFree (inertDigits n) (by decide)

@[simp] theorem sizeWhole (n : Nat) : '\n' ∉ (size n).toList := by
  simpa [size] using inertFree (Measure.inertSize n) (by decide)

@[simp] theorem timeWhole (t : Instant) : '\n' ∉ (time t).toList := by
  simpa [time] using inertFree t.inertTabular (by decide)

@[simp] theorem policyWhole (p : Policy) : '\n' ∉ p.toText.toList := by
  simpa [Policy.toText] using inertFree p.inertText (by decide)

theorem Listing.linesWhole (oneLine : OneLine dir as) (now : Instant) : ∀ l ∈ heading dir ++
    if as = [] then nothing else table now as, '\n' ∉ l.toList := by
  obtain ⟨directory, named⟩ := oneLine
  have rows : ∀ a ∈ as, '\n' ∉ (row now a).toList := by
    intro a member
    have age : '\n' ∉ Measure.ageText (Instant.elapsed a.created now) :=
      inertFree (Measure.inertAge _) (by decide)
    simp [row, padLeft, Listing.age, named a member, age]
  split
  · simp [heading, nothing, directory]
  · simpa [heading, table, total, directory, or_imp, forall_and, Artifact.memNewestFirst] using rows

theorem Prune.announcedWhole {t : Target} (oneLine : OneLine t.dir as) :
    ∀ l ∈ Job.announcement t as, '\n' ∉ l.toList := by
  obtain ⟨directory, named⟩ := oneLine
  have rows : ∀ a ∈ (Decision.evaluate as t.policy).delete, '\n' ∉ (row a).toList := by
    intro a deleted
    simp [row, named a (BackupDirectory.decidedListed (.inr deleted))]
  simp only [Job.announcement]
  split
  · simp [heading, nothing, directory]
  · simpa [heading, intention, directory, or_imp, forall_and] using rows

namespace Plan

/-- What stands above the rows of a plan. -/
def opening (p : BackupRotation.Plan) : List String :=
  [Style.bold "Retention plan for" ++ " " ++ p.dir, Style.dim "Policy" ++ ": " ++ Style.cyan p.policy.toText] ++
    p.anchor.toList.map anchorLine ++ [""]

def rows (p : BackupRotation.Plan) : List String :=
  match p.verdicts with
  | some vs => vs.map verdict
  | none => partition p.result

theorem textParts (p : BackupRotation.Plan) : text p = opening p ++ (rows p ++ "" :: summary p.result) := by
  cases given : p.verdicts with
  | none => simp only [text, opening, rows, given, List.append_assoc, List.cons_append, List.nil_append]
  | some vs => simp only [text, opening, rows, given, List.append_assoc, List.cons_append, List.nil_append]

theorem rowWhole {mark : String} {a : Artifact} (plain : '\n' ∉ mark.toList) (named : '\n' ∉ a.id.toList) :
    '\n' ∉ (row mark a).toList := by
  simp [row, plain, named]

theorem verdictWhole {v : Verdict} (named : '\n' ∉ v.artifact.id.toList) : '\n' ∉ (verdict v).toList := by
  have keep : '\n' ∉ (row keepMark v.artifact).toList := rowWhole (by simp [keepMark]) named
  have delete : '\n' ∉ (row deleteMark v.artifact).toList := rowWhole (by simp [deleteMark]) named
  have reasons : '\n' ∉ Measure.reasonsText v.reasons := inertFree (Measure.inertReasons _) (by decide)
  unfold verdict
  split
  · simp [keep, reasons]
  · exact delete

theorem rowsWhole {p : Policy} {explain : Bool} (named : ∀ a ∈ as, '\n' ∉ a.id.toList) :
    ∀ l ∈ rows (.of dir p explain as), '\n' ∉ l.toList := by
  cases explain with
  | true =>
    refine List.forall_mem_map.mpr fun v member => verdictWhole (named _ ?_)
    have first := List.mem_map_of_mem (f := Verdict.artifact) member
    rw [Decision.explainArtifacts] at first
    exact (Artifact.firstsSublist as).subset first
  | false =>
    refine List.forall_mem_append.mpr ⟨List.forall_mem_map.mpr fun a kept => ?_,
      List.forall_mem_map.mpr fun a deleted => ?_⟩
    · exact rowWhole (by simp [keepMark]) (named a (BackupDirectory.decidedListed (.inl kept)))
    · exact rowWhole (by simp [deleteMark]) (named a (BackupDirectory.decidedListed (.inr deleted)))

theorem linesWhole {p : Policy} {explain : Bool} (oneLine : OneLine dir as) :
    ∀ l ∈ text (.of dir p explain as), '\n' ∉ l.toList := by
  obtain ⟨directory, named⟩ := oneLine
  have above : ∀ l ∈ opening (.of dir p explain as), '\n' ∉ l.toList := by
    simp [opening, Plan.of, anchorLine, directory, or_imp, forall_and]
  have below : ∀ l ∈ "" :: summary (Decision.evaluate as p), '\n' ∉ l.toList := by
    unfold summary
    split
    · simp
    · simp
  rw [textParts]
  exact List.forall_mem_append.mpr ⟨above, List.forall_mem_append.mpr ⟨rowsWhole named, below⟩⟩

end Plan
end Report
end BackupRotation
