/-! An example of a settings document, with comments. -/
namespace BackupRotation.Settings

def exampleLines : List String :=
  ["# Keeper configuration",
   "",
   "[storage]",
   "# Directory holding backup_<engine>_<database>_<YYYYmmdd_HHMMSS>.<ext> files",
   "backup_dir = \"/var/backups/db\"",
   "",
   "[retention]",
   "# kind = \"none\"                      keep everything",
   "# kind = \"simple\", keep_count = N    keep the N newest backups",
   "# kind = \"smart\"                     one backup per day/week/month/year slot",
   "kind = \"smart\"",
   "daily = 7",
   "weekly = 4",
   "monthly = 12",
   "yearly = 2",
   "# Alternatively: policy = \"smart:7,4,12,2\"",
   "",
   "[prune]",
   "# Deletions in flight at once (1-64)",
   "parallelism = 4"]

def exampleText : String := String.join (exampleLines.map fun l => l ++ "\n")

end BackupRotation.Settings
