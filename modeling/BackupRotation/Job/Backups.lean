import BackupRotation.Job.Basic
import BackupRotation.Report.Basic
import BackupRotation.Report.Plan
import BackupRotation.Report.Prune
/-! The commands that work on backups: listing them, planning a pruning, and pruning. -/
namespace BackupRotation
namespace Job
open Report (lines)

def listBackups (location dir : Option String) : Job Unit := do
  let t ← Target.resolve location dir none
  let as ← t.artifacts
  print (lines (Report.Listing.heading t.dir))
  if as.isEmpty then print (lines Report.Listing.nothing)
  else
    let now ← ofProgram Program.now
    print (lines (Report.Listing.table now as))

def planPruning (location dir policy : Option String) (explain json : Bool) : Job Unit := do
  let t ← Target.resolve location dir policy
  let as ← t.artifacts
  ofProgram (Program.tellAll (Plan.events t.policy explain as))
  let p := Plan.of t.dir t.policy explain as
  if json then print ((Report.Plan.record p).toPrettyText ++ "\n")
  else print (lines (Report.Plan.text p))

def confirm (backups : Nat) : Job Bool := do
  print (Report.Prune.question backups)
  let answer ← orFail Program.readLine .confirmation
  return Report.Prune.agrees answer

def deleteBackups (dir : String) (as : List Artifact) : Job Unit := do
  let report ← ofProgram (BackupDirectory.prune dir as)
  print (lines (Report.Prune.outcome report))

/-- Deletes what the policy does not keep. How many deletions are under way at once changes nothing in
the report, so the command does not depend on it. -/
def pruneBackups (location dir policy : Option String) (dryRun yes : Bool) : Job Unit := do
  let t ← Target.resolve location dir policy
  let as ← t.artifacts
  ofProgram (Program.tellAll (Decision.events as t.policy))
  let r := Decision.evaluate as t.policy
  print (lines (Report.Prune.heading t.dir t.policy as.length))
  if r.deletesNothing then print (lines Report.Prune.nothing)
  else
    print (lines (Report.Prune.intention r))
    if dryRun then print (lines Report.Prune.dryRun)
    else if yes then deleteBackups t.dir r.delete
    else if ← confirm r.delete.length then deleteBackups t.dir r.delete
    else print (lines Report.Prune.aborted)

end Job
end BackupRotation
