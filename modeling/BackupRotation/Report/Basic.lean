import BackupRotation.Artifact
import BackupRotation.Instant.Written
import BackupRotation.Measure
/-! What the reports have in common, and the report that lists the backups, newest first, with their
ages. A colour ends in the terminal's own colour, emphasis in plain text. -/
namespace BackupRotation.Style

def code (n : String) : String := "\x1b[" ++ n ++ "m"

def emphasis (n : String) (s : String) : String := code n ++ s ++ code "0"
def colour (n : String) (s : String) : String := code n ++ s ++ code "39"

def bold (s : String) : String := emphasis "1" s
def dim (s : String) : String := emphasis "2" s
def red (s : String) : String := colour "31" s
def green (s : String) : String := colour "32" s
def yellow (s : String) : String := colour "33" s
def cyan (s : String) : String := colour "36" s

end BackupRotation.Style

namespace BackupRotation.Report

def lines (ls : List String) : String := String.join (ls.map fun l => l ++ "\n")

def count (n : Nat) : String := String.ofList (Text.digits n)
def size (n : Nat) : String := String.ofList (Measure.sizeText n)
def time (t : Instant) : String := String.ofList t.tabular

def padLeft (width : Nat) (s : String) : String :=
  String.ofList (List.replicate (width - s.length) ' ') ++ s

end BackupRotation.Report

namespace BackupRotation.Report.Listing

def heading (dir : String) : List String := [Style.bold "Backups in" ++ " " ++ dir, ""]

def age (now : Instant) (a : Artifact) : String :=
  String.ofList (Measure.ageText (Instant.elapsed a.created now))

def row (now : Instant) (a : Artifact) : String :=
  "  " ++ Style.cyan (time a.created) ++ "  " ++ padLeft 10 (size a.size.toNat) ++ "  " ++ a.id ++
    " " ++ Style.dim ("(" ++ age now a ++ ")")

def total (as : List Artifact) : String :=
  Style.yellow (count as.length) ++ " backups, " ++ size (Artifact.totalSize as)

def nothing : List String := [Style.dim "No backups found"]

def table (now : Instant) (as : List Artifact) : List String :=
  (Artifact.newestFirst as).map (row now) ++ ["", total as]

end BackupRotation.Report.Listing
