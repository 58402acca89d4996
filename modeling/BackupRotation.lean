import BackupRotation.Artifact
import BackupRotation.BackupDirectory
import BackupRotation.BackupName
import BackupRotation.Binary64.Basic
import BackupRotation.Binary64.Decimal
import BackupRotation.Calendar
import BackupRotation.CommandLine
import BackupRotation.Decision
import BackupRotation.Event
import BackupRotation.FileError
import BackupRotation.Instant.Basic
import BackupRotation.Instant.Civil
import BackupRotation.Instant.Read
import BackupRotation.Instant.Written
import BackupRotation.Job.Backups
import BackupRotation.Job.Basic
import BackupRotation.Job.Settings
import BackupRotation.Json.Basic
import BackupRotation.Json.Magnitude
import BackupRotation.Json.Read
import BackupRotation.Json.Write
import BackupRotation.Main
import BackupRotation.Measure
import BackupRotation.Octets
import BackupRotation.Path
import BackupRotation.Policy.Basic
import BackupRotation.Policy.Text
import BackupRotation.Program
import BackupRotation.Proofs.Clearing
import BackupRotation.Proofs.FileNames
import BackupRotation.Proofs.Firsts
import BackupRotation.Proofs.Listing
import BackupRotation.Proofs.NewestFirst
import BackupRotation.Proofs.PartialDeletion
import BackupRotation.Proofs.Reasons
import BackupRotation.Proofs.Removal
import BackupRotation.Proofs.RepeatedRotation
import BackupRotation.Proofs.Survival
import BackupRotation.Proofs.Walks
import BackupRotation.Proofs.Ways
import BackupRotation.Proofs.Windows
import BackupRotation.Pruning
import BackupRotation.Record
import BackupRotation.Report.Basic
import BackupRotation.Report.Plan
import BackupRotation.Report.Prune
import BackupRotation.Report.Settings
import BackupRotation.Rounding
import BackupRotation.Settings.Basic
import BackupRotation.Settings.Document
import BackupRotation.Settings.Example
import BackupRotation.Settings.File
import BackupRotation.Settings.Rotation
import BackupRotation.Slot
import BackupRotation.StorageError
import BackupRotation.Store
import BackupRotation.Text.Blank
import BackupRotation.Text.Digits
import BackupRotation.Text.Shown
import BackupRotation.Text.Split
import BackupRotation.Tier
import BackupRotation.Toml.Basic
import BackupRotation.Toml.Canonical
import BackupRotation.Toml.Moment
import BackupRotation.Toml.Number
import BackupRotation.Toml.Outline
import BackupRotation.Toml.Plain
import BackupRotation.Toml.Quoted
import BackupRotation.Toml.Read
import BackupRotation.Toml.Write
import BackupRotation.Volume.Basic
import BackupRotation.Volume.Operations
import BackupRotation.Volume.Walk
import BackupRotation.World
import BackupRotation.Proofs.Partition
import BackupRotation.Proofs.Verdicts
import BackupRotation.Proofs.Schedules
import BackupRotation.Proofs.RepeatedApply
import BackupRotation.Proofs.SectionKeys
import BackupRotation.Proofs.Reload
import BackupRotation.Proofs.Fallback
import BackupRotation.Proofs.Courses
import BackupRotation.Proofs.Survey
import BackupRotation.Proofs.Deletions
import BackupRotation.Proofs.PruneFrame
import BackupRotation.Proofs.ReportLines
import BackupRotation.Proofs.ReportRows
import BackupRotation.Proofs.PlanReports
import BackupRotation.Proofs.Agreement
import BackupRotation.Proofs.Answers
import BackupRotation.Proofs.Consent
import BackupRotation.Proofs.EntryDeletion
import BackupRotation.Proofs.BrokenLinks
import BackupRotation.Proofs.DeletionOrder
import BackupRotation.Proofs.StoreRuns
import BackupRotation.Proofs.Mirror
import BackupRotation.Proofs.Mishaps
import BackupRotation.Proofs.Growth
import BackupRotation.Proofs.Places
import BackupRotation.Proofs.Parents
import BackupRotation.Proofs.Replacement
import BackupRotation.Proofs.Saving
import BackupRotation.Proofs.Changing
import BackupRotation.Proofs.Interruption
import BackupRotation.Proofs.Sections
import BackupRotation.Proofs.Numerals
import BackupRotation.Proofs.Days
import BackupRotation.Proofs.Interchange
import BackupRotation.Proofs.JsonReading
import BackupRotation.Proofs.Records
import BackupRotation.Proofs.PolicyTexts
import BackupRotation.Proofs.EntryForms
import BackupRotation.Proofs.Batches
import BackupRotation.Proofs.Trimming
import BackupRotation.Proofs.PolicyGrammar
import BackupRotation.Proofs.ByteOrder
import BackupRotation.Proofs.Rows
import BackupRotation.Proofs.Leaders
import BackupRotation.Proofs.NewestFew
import BackupRotation.Proofs.NewestKept
import BackupRotation.Proofs.AgeOrder
import BackupRotation.Proofs.Ages
import BackupRotation.Proofs.ExactWindows
import BackupRotation.Proofs.LargerCounts
import BackupRotation.Proofs.Reordering
import BackupRotation.Proofs.LaterRepeats
import BackupRotation.Proofs.Retiming
import BackupRotation.Proofs.Shifts
import BackupRotation.Proofs.Stamps
import BackupRotation.Proofs.NameParts
import BackupRotation.Proofs.NameSpellings
import BackupRotation.Proofs.Contents
import BackupRotation.Proofs.Assignments
import BackupRotation.Proofs.StampOrder
import BackupRotation.Proofs.WindowNumbers
import BackupRotation.Proofs.Roundings
import BackupRotation.Proofs.SizeTexts
import BackupRotation.Proofs.AgeTexts
import BackupRotation.Proofs.ReasonTexts
