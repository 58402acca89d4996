import BackupRotation.Decision
import BackupRotation.Policy.Text
import BackupRotation.Pruning
import BackupRotation.Report.Basic
/-! What a pruning is about to do, asks, and has done. -/
namespace BackupRotation.Report.Prune

def heading (dir : String) (p : Policy) (backups : Nat) : List String :=
  [Style.bold "Pruning" ++ " " ++ count backups ++ " backups in " ++ dir ++ " (policy " ++
    Style.cyan p.toText ++ ")", ""]

def nothing : List String := [Style.dim "Nothing to delete - all backups are retained"]

def row (a : Artifact) : String :=
  "  " ++ Style.red "-" ++ " " ++ a.id ++ " " ++ Style.dim ("(" ++ size a.size.toNat ++ ")")

def intention (r : Partition) : List String :=
  r.delete.map row ++ ["",
    Style.yellow (count r.delete.length) ++ " to delete, " ++ Style.green (count r.keep.length) ++
      " kept, " ++ size r.reclaimedSize ++ " to reclaim"]

def dryRun : List String := [Style.yellow "Dry run - nothing deleted"]

def question (backups : Nat) : String := "Delete " ++ count backups ++ " backups? [y/N] "

def agrees (answer : String) : Bool :=
  let cs := Text.lower (Text.trim answer.toList)
  cs == ['y'] || cs == ['y', 'e', 's']

def aborted : List String := [Style.yellow "Aborted - nothing deleted"]

def rule : String := String.ofList (List.replicate 50 '━')

def failed (f : FailedDeletion) : String :=
  "  " ++ Style.yellow "!" ++ " " ++ f.id ++ ": " ++ Style.dim f.cause.message

def failures (r : PruneReport) : List String :=
  if r.isClean then []
  else
    ["", Style.bold (Style.yellow "Warning:") ++ " " ++ count r.failed.length ++
      " deletions failed:"] ++ r.failed.map failed

def outcome (r : PruneReport) : List String :=
  ["", Style.bold (Style.green "Prune Complete"), rule,
    "Backups deleted: " ++ Style.yellow (count r.deleted.length),
    "Space freed:     " ++ Style.green (size r.freedSize)] ++ failures r

example : agrees " YeS\n" = true ∧ agrees "yes please" = false := by decide +kernel

end BackupRotation.Report.Prune
