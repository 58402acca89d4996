import BackupRotation.Instant.Read
import BackupRotation.Instant.Written
/-! The naming scheme `backup_<engine>_<database>_<YYYYmmdd>_<HHMMSS>.<extension>`, and the names of
files that stand beside backups without being backups. -/
namespace BackupRotation

structure BackupName where
  engine : String
  database : String
  created : Instant
  extension : String
  deriving DecidableEq, Repr

namespace BackupName
open Text (splitFirst? splitLast? afterStart?)

def start : List Char := "backup_".toList

def width (cs : List Char) : Nat := cs.foldr (fun c n => c.utf8Size + n) 0

def splitTail? (cs : List Char) : Option (List Char × List Char × List Char) := do
  let (rest, time) ← splitLast? '_' cs
  let (rest, date) ← splitLast? '_' rest
  some (rest, date, time)

def read? (fileName : List Char) : Option BackupName := do
  let (stem, extension) := (splitFirst? '.' fileName).getD (fileName, [])
  let (owner, date, time) ← splitTail? (← afterStart? start stem)
  let (engine, database) ← splitFirst? '_' owner
  if width date = 8 ∧ width time = 6 ∧ engine ≠ [] ∧ database ≠ [] then
    let created ← Instant.ofStamp? (date ++ '_' :: time)
    some ⟨String.ofList engine, String.ofList database, created, String.ofList extension⟩
  else none

def ofFileName? (fileName : String) : Option BackupName := read? fileName.toList

def written (n : BackupName) : List Char :=
  start ++ n.engine.toList ++ '_' :: n.database.toList ++ '_' :: n.created.stamp ++
    (if n.extension.toList = [] then [] else '.' :: n.extension.toList)

def fileName (n : BackupName) : String := String.ofList n.written

def sidecarExtensions : List String :=
  ["tmp", "part", "json", "meta", "sha256", "md5", "log", "lock"]

/-- Hidden files and files with one of these extensions, in any case, are not backups. -/
def isSidecar (fileName : String) : Bool :=
  match fileName.toList with
  | '.' :: _ => true
  | cs =>
    match splitLast? '.' cs with
    | some (_, extension) =>
      sidecarExtensions.any fun s => Text.sameIgnoringCase s.toList extension
    | none => false

example :
    (ofFileName? "backup_mysql_shop_eu_20231231_235959.sql.gz").map fileName =
      some "backup_mysql_shop_eu_20231231_235959.sql.gz" := by decide +kernel

end BackupName
end BackupRotation
