import BackupRotation.Report.Basic
import BackupRotation.Settings.Basic
/-! The settings as a list, and what to say about a change of one and about their file. -/
namespace BackupRotation.Report.Settings
open BackupRotation (Policy)

def describe : Policy → String
  | .none => "(keep everything)"
  | .simple n => "(keep the " ++ count n.toNat ++ " newest)"
  | .smart d w m y =>
    "(" ++ count d.toNat ++ " daily, " ++ count w.toNat ++ " weekly, " ++ count m.toNat ++
      " monthly, " ++ count y.toNat ++ " yearly)"

def setting (name value : String) : String := "  " ++ Style.cyan name ++ " = " ++ value

def fallback : String :=
  "  " ++ Style.yellow ("[retention] could not be understood and is left as written; " ++
    "fix it with 'keeper config set retention.policy'")

def overview (path : String) (s : BackupRotation.Settings) : List String :=
  [Style.bold "System Configuration", Style.dim "Location" ++ ": " ++ Style.dim path, "",
    Style.yellow "[storage]", setting "backup_dir" s.backupDir, "",
    Style.yellow "[retention]",
    setting "policy" (s.policy.toText ++ " " ++ Style.dim (describe s.policy))] ++
    (if s.isFallback then [fallback] else []) ++
    ["", Style.yellow "[prune]", setting "parallelism" (count s.parallelism), "",
      Style.bold "Valid Values:",
      "  retention.policy: none | simple:N | smart:DAILY,WEEKLY,MONTHLY,YEARLY",
      "  prune.parallelism: 1-64"]

def changed (key value : String) : List String :=
  [Style.green "✓" ++ " " ++ Style.cyan key ++ " = " ++ value]

def fileCreated (path : String) : List String :=
  [Style.green "✓" ++ " Created config file at: " ++ path]

def fileMissing : String := Style.yellow "File does not exist. Use --create to create it."

end BackupRotation.Report.Settings
