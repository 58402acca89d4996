import BackupRotation.Proofs.Records
import BackupRotation.Proofs.ReportRows
import BackupRotation.Proofs.Verdicts
/-! What a plan tells, read from the text or from the record that is printed: the names of the backups to keep
and to delete, the verdicts that were asked for, and the anchor. -/
namespace BackupRotation

namespace Record
open Json (Whole reread)

def member? (key : String) : Json → Option Json
  | .object members =>
    match named key members with
    | [j] => some j
    | _ => none
  | _ => none

def id? (j : Json) : Option String := do text? (← member? "id" j)

/-- The names of the backups in the list under a key. -/
def ids? (key : String) (j : Json) : Option (List String) := do list? id? (← member? key j)

/-- The backup of a verdict, and whether it is kept. -/
def judged? (j : Json) : Option (String × Bool) := do
  let id ← id? (← member? "artifact" j)
  let keep ← truth? (← member? "keep" j)
  some (id, keep)

def judgements? (j : Json) : Option (List (String × Bool)) := do list? judged? (← member? "verdicts" j)

/-- The anchor of a plan, which a plan of no backups has not. -/
def anchor? (j : Json) : Option (Option Instant) := do
  match ← member? "anchor" j with
  | .null => some none
  | j => (instant? j).map some

/-- The record of a plan names the backups to keep and those to delete, in order, and its anchor. Its verdicts
are on the same backups. -/
structure Tells (explain : Bool) (j : Json) (keep delete : List String) (anchor : Option Instant) : Prop where
  kept : ids? "keep" j = some keep
  deleted : ids? "delete" j = some delete
  anchored : anchor? j = some anchor
  judged : explain = true → ∃ vs, judgements? j = some vs ∧
    ((vs.filter fun v => v.2).map Prod.fst).Perm keep ∧ ((vs.filter fun v => !v.2).map Prod.fst).Perm delete

theorem memberReread (key : String) (members : List (String × Json)) :
    member? key (reread (.object members)) = (member? key (.object members)).map reread := by
  have mapped : named key (members.map fun m => (m.1, reread m.2)) = (named key members).map reread := by
    simp [named, List.filter_map, Function.comp_def]
  rw [Json.rereadObject]
  simp only [member?, mapped]
  rcases named key members with _ | ⟨j, _ | ⟨i, js⟩⟩
  · rfl
  · rfl
  · rfl

theorem memberOnly {key : String} {members : List (String × Json)} {j : Json} (only : named key members = [j]) :
    member? key (reread (.object members)) = some (reread j) := by
  rw [memberReread, member?, only]
  rfl

theorem idReread (a : Artifact) : id? (reread (ofArtifact a)) = some a.id := by
  have member : member? "id" (reread (ofArtifact a)) = some (reread (.string a.id)) :=
    memberOnly (by simp [named])
  simp only [id?, member, Option.bind_eq_bind, Option.bind_some]
  rfl

theorem judgedReread (v : Verdict) : judged? (reread (ofVerdict v)) = some (v.artifact.id, v.keep) := by
  have artifact : member? "artifact" (reread (ofVerdict v)) = some (reread (ofArtifact v.artifact)) :=
    memberOnly (by simp [named])
  have keep : member? "keep" (reread (ofVerdict v)) = some (reread (.bool v.keep)) :=
    memberOnly (by simp [named])
  simp only [judged?, artifact, keep, idReread, Option.bind_eq_bind, Option.bind_some]
  rfl

theorem idsReread {key : String} {members : List (String × Json)} {as : List Artifact}
    (only : named key members = [ofArtifacts as]) :
    ids? key (reread (.object members)) = some (as.map Artifact.id) := by
  simp only [ids?, memberOnly only, ofArtifacts, Json.rereadArray, List.map_map, Option.bind_eq_bind,
    Option.bind_some]
  exact listMapped fun a _ => idReread a

section Plans
variable {p : Plan} {key : String} {j : Json}

theorem namedBefore (members : List (String × Json)) (vs : Option (List Verdict)) (other : "verdicts" ≠ key) :
    named key (members ++ vs.toList.map fun vs => ("verdicts", .array (vs.map ofVerdict))) =
      named key members := by
  cases vs with
  | none => simp
  | some vs => simp [named, other]

theorem keptRead (p : Plan) : ids? "keep" (reread (Report.Plan.record p)) =
    some (p.result.keep.map Artifact.id) :=
  idsReread ((namedBefore _ _ (by decide)).trans (by simp [named]))

theorem deletedRead (p : Plan) : ids? "delete" (reread (Report.Plan.record p)) =
    some (p.result.delete.map Artifact.id) :=
  idsReread ((namedBefore _ _ (by decide)).trans (by simp [named]))

theorem anchorRead (p : Plan) : anchor? (reread (Report.Plan.record p)) = some p.anchor := by
  cases known : p.anchor with
  | none =>
    have member : member? "anchor" (reread (Report.Plan.record p)) = some (reread .null) :=
      memberOnly ((namedBefore _ _ (by decide)).trans (by simp [named, known]))
    simp only [anchor?, member, Option.bind_eq_bind, Option.bind_some]
    rfl
  | some t =>
    have member : member? "anchor" (reread (Report.Plan.record p)) = some (reread (ofInstant t)) :=
      memberOnly ((namedBefore _ _ (by decide)).trans (by simp [named, known]))
    have same : reread (ofInstant t) = .string (String.ofList t.interchange) := rfl
    have read : instant? (.string (String.ofList t.interchange)) = some t := instantRead t
    simp only [anchor?, member, same, read, Option.bind_eq_bind, Option.bind_some, Option.map_some]

theorem judgedRead {vs : List Verdict} (explained : p.verdicts = some vs) :
    judgements? (reread (Report.Plan.record p)) = some (vs.map fun v => (v.artifact.id, v.keep)) := by
  have member : member? "verdicts" (reread (Report.Plan.record p)) =
      some (reread (.array (vs.map ofVerdict))) := memberOnly (by simp [named, explained])
  simp only [judgements?, member, Json.rereadArray, List.map_map, Option.bind_eq_bind, Option.bind_some]
  exact listMapped fun v _ => judgedReread v

theorem wholeRecord (p : Plan) : Whole (Report.Plan.record p) := by
  have artifacts (as : List Artifact) : Whole (ofArtifacts as) :=
    .array (List.forall_mem_map.mpr fun a _ => Json.plainWhole (plainArtifact a))
  have reason (r : Reason) : Whole (ofReason r) := by
    cases r with
    | keepAll => exact .object (by simp [Whole.string])
    | recent rank => exact .object (by simp [Whole.string, Whole.number])
    | slot t index => exact .object (by simp [ofTier, Whole.string, Whole.number])
  have verdict (v : Verdict) : Whole (ofVerdict v) := by
    have given : Whole (.array (v.reasons.map ofReason)) := .array (List.forall_mem_map.mpr fun r _ => reason r)
    exact .object (by simp [Json.plainWhole (plainArtifact v.artifact), given, Whole.bool])
  have verdicts (vs : List Verdict) : Whole (.array (vs.map ofVerdict)) :=
    .array (List.forall_mem_map.mpr fun v _ => verdict v)
  have numbers (n : Nat) : Whole (.number n) := .number n
  refine .object (List.forall_mem_append.mpr ⟨?_, ?_⟩)
  · cases p.anchor with
    | none => simp [artifacts, Whole.string, Whole.null, numbers]
    | some t => simp [artifacts, Whole.string, ofInstant, numbers]
  · cases p.verdicts with
    | none => simp
    | some vs => simp [verdicts]

theorem recordRead (p : Plan) :
    Json.ofText? ((Report.Plan.record p).toPrettyText ++ "\n") = some (reread (Report.Plan.record p)) := by
  have text : ((Report.Plan.record p).toPrettyText ++ "\n").toList =
      Json.pretty 0 (Report.Plan.record p) ++ Json.newline 0 := by
    simp [Json.toPrettyText, Json.newline]
  rw [Json.ofText?, text]
  refine Json.readsLine (Json.newlineBlank 0) ?_ (Json.prettyReread (wholeRecord p) 0)
  exact Json.endsCons (by decide) []

end Plans
end Record

namespace Decision

theorem explainedIds (as : List Artifact) (p : Policy) :
    (((explain as p).filter fun v => v.keep).map fun v => v.artifact.id).Perm
        ((evaluate as p).keep.map Artifact.id) ∧
      (((explain as p).filter fun v => !v.keep).map fun v => v.artifact.id).Perm
        ((evaluate as p).delete.map Artifact.id) := by
  obtain ⟨keep, delete⟩ := partitionPerm (presentPerm p (explain as p)).symm
  constructor
  · have ids := keep.map Artifact.id
    rw [partition, List.map_map] at ids
    exact ids
  · have ids := delete.map Artifact.id
    rw [partition, List.map_map] at ids
    exact ids

end Decision

/-- The rows of a plan name the backups to keep and those to delete, in order unless they stand in the order
of their verdicts. Its anchor is shown to the second. -/
structure Report.Plan.Tells (explain : Bool) (ls : List String) (keep delete : List String)
    (anchor : Option Instant) : Prop where
  kept : (ls.filterMap (kept? explain)).Perm keep
  deleted : (ls.filterMap deleted?).Perm delete
  ordered : explain = false → ls.filterMap (kept? false) = keep ∧ ls.filterMap deleted? = delete
  anchored : ls.filterMap anchor? = (anchor.map Instant.wholeSecond).toList

namespace Plan
open Report (lines OneLine Printed)

/-- What is read from the text or from the record that a plan prints. -/
structure Told (explain json : Bool) (whole : Prop) (said : String) (keep delete : List String)
    (anchor : Option Instant) : Prop where
  record : json = true → ∃ j, Json.ofText? said = some j ∧ Record.Tells explain j keep delete anchor
  text : json = false → ∃ ls, Printed whole said ls ∧ Report.Plan.Tells explain ls keep delete anchor

section Printing
variable (dir : String) (p : Policy) (explain : Bool) (as : List Artifact)

theorem recordTells : Record.Tells explain (Json.reread (Report.Plan.record (of dir p explain as)))
    ((Decision.evaluate as p).keep.map Artifact.id) ((Decision.evaluate as p).delete.map Artifact.id)
      (Artifact.anchor? as) := by
  refine ⟨Record.keptRead _, Record.deletedRead _, Record.anchorRead _, fun explained => ?_⟩
  subst explained
  obtain ⟨keep, delete⟩ := Decision.explainedIds as p
  refine ⟨_, Record.judgedRead rfl, ?_, ?_⟩
  · rw [List.filter_map, List.map_map]
    exact keep
  · rw [List.filter_map, List.map_map]
    exact delete

theorem textTells : Report.Plan.Tells explain (Report.Plan.text (of dir p explain as))
    ((Decision.evaluate as p).keep.map Artifact.id) ((Decision.evaluate as p).delete.map Artifact.id)
      (Artifact.anchor? as) := by
  cases explain with
  | true =>
    obtain ⟨kept, deleted⟩ := Report.Plan.verdictsRead (p := of dir p true as) rfl
    obtain ⟨keep, delete⟩ := Decision.explainedIds as p
    exact ⟨kept ▸ keep, deleted ▸ delete, nofun, Report.Plan.anchorRead⟩
  | false =>
    obtain ⟨kept, deleted⟩ := Report.Plan.partitionRead (p := of dir p false as) rfl
    exact ⟨.of_eq kept, .of_eq deleted, fun _ => ⟨kept, deleted⟩, Report.Plan.anchorRead⟩

theorem told (json : Bool) : Told explain json (OneLine dir as)
    (if json then (Report.Plan.record (of dir p explain as)).toPrettyText ++ "\n"
      else lines (Report.Plan.text (of dir p explain as)))
    ((Decision.evaluate as p).keep.map Artifact.id) ((Decision.evaluate as p).delete.map Artifact.id)
      (Artifact.anchor? as) := by
  refine ⟨fun asRecord => ?_, fun asText => ?_⟩
  · subst asRecord
    exact ⟨_, Record.recordRead _, recordTells dir p explain as⟩
  · subst asText
    exact ⟨_, Report.linesPrinted Report.Plan.linesWhole, textTells dir p explain as⟩

end Printing
end Plan
end BackupRotation
