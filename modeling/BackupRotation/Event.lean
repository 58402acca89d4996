import BackupRotation.Decision
import BackupRotation.Instant.Written
/-! Events worth telling an operator, with their severity and wording, and those of a decision. -/
namespace BackupRotation

inductive Severity where
  | debug
  | info
  | warn
  deriving DecidableEq, Repr

namespace Severity

def name : Severity → String
  | debug => "DEBUG"
  | info => "INFO"
  | warn => "WARN"

def rank : Severity → Nat
  | debug => 0
  | info => 1
  | warn => 2

end Severity

inductive Event where
  | duplicateIgnored (id : String)
  | anchorChosen (anchor : Instant) (artifacts : Nat)
  | tierFilled (tier : Tier) (filled : Nat) (count : UInt32)
  | undecodableSkipped (shown : String)
  | sidecarSkipped (name : String)
  | vanished (name : String)
  | listed (count : Nat) (directory : String)
  | deleted (path : String)
  | deletionFailed (id cause : String)
  | pruned (count size failed : Nat)
  | policyUnreadable (text cause : String)
  | retentionUnreadable
  deriving DecidableEq, Repr

namespace Event

def severity : Event → Severity
  | duplicateIgnored _ => .warn
  | anchorChosen .. => .debug
  | tierFilled .. => .debug
  | undecodableSkipped _ => .debug
  | sidecarSkipped _ => .debug
  | vanished _ => .debug
  | listed .. => .info
  | deleted _ => .debug
  | deletionFailed .. => .warn
  | pruned .. => .info
  | policyUnreadable .. => .warn
  | retentionUnreadable => .warn

def message : Event → String
  | duplicateIgnored id => s!"Ignoring duplicate artifact identifier: {id}"
  | anchorChosen anchor n => s!"Retention anchor {String.ofList anchor.logged} over {n} artifacts"
  | tierFilled tier filled count => s!"Tier {tier.name} filled {filled}/{count} slots"
  | undecodableSkipped shown => s!"Skipping non UTF-8 file name: {shown}"
  | sidecarSkipped name => s!"Skipping sidecar {name}"
  | vanished name => s!"Skipping {name}: vanished during listing"
  | listed n directory => s!"Listed {n} artifacts in {directory}"
  | deleted path => s!"Deleted {path}"
  | deletionFailed id cause => s!"Failed to delete {id}: {cause}"
  | pruned n size failed => s!"Pruned {n} artifacts ({size} bytes), {failed} failed"
  | policyUnreadable text cause =>
    s!"Invalid retention policy '{text}': {cause}; keeping all backups"
  | retentionUnreadable => "Invalid [retention] section; keeping all backups"

def line (e : Event) : String := e.severity.name ++ " " ++ e.message

end Event

namespace Decision

def events (as : List Artifact) (p : Policy) : List Event :=
  let unique := Artifact.firsts as
  let rotation : List Event :=
    match p, Artifact.anchor? unique with
    | .smart .., some anchor =>
      .anchorChosen anchor unique.length ::
        p.enabledTiers.map fun (t, count) =>
          .tierFilled t (Slot.fill unique anchor t count.toNat).length count
    | _, _ => []
  (Artifact.repeats as).map .duplicateIgnored ++ rotation

end Decision
end BackupRotation
