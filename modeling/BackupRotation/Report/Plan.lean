import BackupRotation.Decision
import BackupRotation.Event
import BackupRotation.Json.Write
import BackupRotation.Policy.Text
import BackupRotation.Record
import BackupRotation.Report.Basic
/-! What a pruning would keep and delete, for people and as a record. -/
namespace BackupRotation

structure Plan where
  dir : String
  policy : Policy
  anchor : Option Instant
  result : Partition
  verdicts : Option (List Verdict)
  deriving DecidableEq, Repr

namespace Plan

def of (dir : String) (p : Policy) (explain : Bool) (as : List Artifact) : Plan where
  dir := dir
  policy := p
  anchor := Artifact.anchor? as
  result := Decision.evaluate as p
  verdicts := if explain then some (Decision.explain as p) else none

def events (p : Policy) (explain : Bool) (as : List Artifact) : List Event :=
  Decision.events as p ++ if explain then Decision.events as p else []

end Plan

namespace Report.Plan

def keepMark : String := Style.green "KEEP  "
def deleteMark : String := Style.red "DELETE"

def row (mark : String) (a : Artifact) : String :=
  "  " ++ mark ++ " " ++ Style.dim (time a.created) ++ "  " ++ a.id

def partition (r : Partition) : List String :=
  r.keep.map (row keepMark) ++ r.delete.map (row deleteMark)

def verdict (v : Verdict) : String :=
  if v.keep then
    row keepMark v.artifact ++ "  " ++ Style.cyan (String.ofList (Measure.reasonsText v.reasons))
  else row deleteMark v.artifact

def summary (r : Partition) : List String :=
  if r.keep.isEmpty && r.delete.isEmpty then [Style.dim "No backups found"]
  else
    ["Keep:   " ++ Style.green (count r.keep.length) ++ " (" ++ size r.keptSize ++ ")",
      "Delete: " ++ Style.yellow (count r.delete.length) ++ " (" ++ size r.reclaimedSize ++ ")"]

def anchorLine (t : Instant) : String := Style.dim "Anchor" ++ ": " ++ time t

def text (p : BackupRotation.Plan) : List String :=
  [Style.bold "Retention plan for" ++ " " ++ p.dir,
    Style.dim "Policy" ++ ": " ++ Style.cyan p.policy.toText] ++
    p.anchor.toList.map anchorLine ++ [""] ++
    (match p.verdicts with
      | some vs => vs.map verdict
      | none => partition p.result) ++
    [""] ++ summary p.result

def record (p : BackupRotation.Plan) : Json :=
  .object ([("backup_dir", .string p.dir), ("policy", .string p.policy.toText),
    ("anchor", match p.anchor with
      | some t => Record.ofInstant t
      | none => .null),
    ("keep", Record.ofArtifacts p.result.keep), ("delete", Record.ofArtifacts p.result.delete),
    ("kept_bytes", .number p.result.keptSize),
    ("reclaimed_bytes", .number p.result.reclaimedSize)] ++
    p.verdicts.toList.map fun vs => ("verdicts", .array (vs.map Record.ofVerdict)))

end Report.Plan
end BackupRotation
