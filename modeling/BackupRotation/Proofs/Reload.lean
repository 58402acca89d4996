import BackupRotation.Proofs.Assignments
import BackupRotation.Proofs.SectionKeys
/-! Settings saved as text and read again. A policy goes out as a record, whatever form it was read in,
and a section that was not understood goes out as it came. That the text of a table gives the table
back is not proved here; it is asked for where it is needed. -/
namespace BackupRotation

namespace Rotation
open Record (named countRead countUnder? Gives)

theorem simpleGiven (n : UInt32) : structured? (ofPolicy (.simple n)) = some (.simple n) :=
  structuredTable.mpr (.simple rfl rfl (countRead n))

theorem smartGiven (d w m y : UInt32) :
    structured? (ofPolicy (.smart d w m y)) = some (.smart d w m y) := by
  refine structuredTable.mpr (.smart rfl fun t => ?_)
  cases t with
  | daily => exact countRead d
  | weekly => exact countRead w
  | monthly => exact countRead m
  | yearly => exact countRead y

theorem readOfPolicy (p : Policy) : read (ofPolicy p) = .ok p := by
  cases p with
  | none => rfl
  | simple n => exact (readRecord rfl).mpr (simpleGiven n)
  | smart d w m y => exact (readRecord rfl).mpr (smartGiven d w m y)

end Rotation

namespace Settings

/-- A section is held only while it is not understood, and then every backup is kept. -/
def Coherent (s : Settings) : Prop :=
  ∀ v, s.unreadable = some v → s.policy = .none ∧ ∀ p, Rotation.read v ≠ .ok p

/-- The settings that can come about from a document or from none by changes, whether or not they
passed. -/
inductive Reached : Settings → Prop where
  | initial : Reached Settings.initial
  | read {text s events} (understood : ofText? text = some (s, events)) : Reached s
  | set {s} (key value : String) (before : Reached s) : Reached (s.set key value).1

/-- The text of a table gives the table back. -/
def ReadsBack (t : Toml.Table) : Prop := Toml.ofText? (Toml.toText t) = some t

section Changes
variable {s : Settings} {key value : String}

theorem setApart (apart : key = Key.policy.name → ∀ p, Policy.ofText value ≠ .ok p) :
    (s.set key value).1.policy = s.policy ∧ (s.set key value).1.unreadable = s.unreadable := by
  obtain ⟨k, t, rfl, assigns, same⟩ | ⟨_, e, same⟩ := setCases s key value
  · rw [same]
    cases assigns with
    | backupDir => exact ⟨rfl, rfl⟩
    | policy read => exact absurd read (apart rfl _)
    | parallelism read => exact ⟨rfl, rfl⟩
  · rw [same]
    exact ⟨rfl, rfl⟩

theorem setCoherent (coherent : Coherent s) (key value : String) : Coherent (s.set key value).1 := by
  obtain ⟨k, t, _, assigns, same⟩ | ⟨_, e, same⟩ := setCases s key value
  · rw [same]
    cases assigns with
    | backupDir => exact coherent
    | policy read =>
      intro v held
      cases held
    | parallelism read => exact coherent
  · rw [same]
    exact coherent

end Changes

section Documents
variable {s : Settings} {t : Toml.Table} {events : List Event}

theorem rotationUnderstood {v : Toml} {p : Policy} (understood : Rotation.read v = .ok p) :
    rotationOf (some v) = (p, none, []) := by
  simp only [rotationOf, understood]

theorem rotationMisread {v : Toml} (misread : ∀ p, Rotation.read v ≠ .ok p) :
    ∃ e, rotationOf (some v) = (.none, some v, [e]) := by
  cases read : Rotation.read v with
  | ok p => exact absurd read (misread p)
  | error e => exact ⟨e, by simp only [rotationOf, read]⟩

theorem ofTableRotation (read : ofTable? t = some (s, events)) :
    rotationOf (t.get? "retention") = (s.policy, s.unreadable, events) := by
  simp only [ofTable?, Option.bind_eq_bind, Option.bind_eq_some_iff] at read
  obtain ⟨dir, _, n, _, built⟩ := read
  cases built
  rfl

theorem ofTableCoherent (read : ofTable? t = some (s, events)) : Coherent s := by
  have rotation := ofTableRotation read
  intro v held
  rw [held] at rotation
  cases found : t.get? "retention" with
  | none => simp [found, rotationOf] at rotation
  | some v =>
    rw [found] at rotation
    by_cases understood : ∃ p, Rotation.read v = .ok p
    · obtain ⟨p, understood⟩ := understood
      simp [rotationUnderstood understood] at rotation
    · have misread := not_exists.mp understood
      obtain ⟨e, kept⟩ := rotationMisread misread
      rw [kept] at rotation
      obtain ⟨policy, rfl, _⟩ := by simpa using rotation
      exact ⟨policy.symm, misread⟩

theorem ofTextIff {text : String} : ofText? text = some (s, events) ↔
    ∃ t, Toml.ofText? text = some t ∧ ofTable? t = some (s, events) := by
  simp only [ofText?, Option.bind_eq_bind, Option.bind_eq_some_iff]

theorem reachedCoherent (reached : Reached s) : Coherent s := by
  induction reached with
  | initial =>
    intro v held
    cases held
  | read understood =>
    obtain ⟨t, _, read⟩ := ofTextIff.mp understood
    exact ofTableCoherent read
  | set key value before ih => exact setCoherent ih key value

/-- What stands for the rotation in a document of the settings. -/
def rotationSection (s : Settings) : Toml := s.unreadable.getD (Rotation.ofPolicy s.policy)

theorem toTableIff : s.toTable? = some t ↔ (s.parallelism : Int) ≤ Toml.largestInteger ∧
    t = [("prune", .table [("parallelism", .integer s.parallelism)]),
      ("retention", s.rotationSection), ("storage", .table [("backup_dir", .string s.backupDir)])] := by
  unfold toTable?
  split
  · rename_i fits
    simp only [fits, true_and, Option.some.injEq, eq_comm, rotationSection]
  · rename_i beyond
    simp only [beyond, false_and, reduceCtorEq]

theorem sectionWritten (written : s.toTable? = some t) : t.get? "retention" = some s.rotationSection := by
  obtain ⟨_, rfl⟩ := toTableIff.mp written
  rfl

theorem sectionRead (coherent : Coherent s) :
    ∃ events, rotationOf (some s.rotationSection) = (s.policy, s.unreadable, events) := by
  unfold rotationSection
  cases held : s.unreadable with
  | none => exact ⟨[], rotationUnderstood (Rotation.readOfPolicy s.policy)⟩
  | some v =>
    obtain ⟨policy, misread⟩ := coherent v held
    obtain ⟨e, kept⟩ := rotationMisread misread
    refine ⟨[e], ?_⟩
    rw [policy]
    exact kept

theorem tableRead (coherent : Coherent s) (written : s.toTable? = some t) :
    ∃ events, ofTable? t = some (s, events) := by
  obtain ⟨_, rfl⟩ := toTableIff.mp written
  obtain ⟨events, rotation⟩ := sectionRead coherent
  have dir : onlyField? "backup_dir" directory? initial.backupDir
      (some (.table [("backup_dir", .string s.backupDir)])) = some s.backupDir := rfl
  have number : onlyField? "parallelism" natural? initial.parallelism
      (some (.table [("parallelism", .integer s.parallelism)])) = some s.parallelism := by
    have natural : natural? (.integer s.parallelism) = some s.parallelism := by
      simp only [natural?, Int.natCast_nonneg, if_true, Int.toNat_natCast]
    exact natural
  refine ⟨events, ?_⟩
  simp only [ofTable?, Toml.Table.get?, List.find?, String.reduceBEq, Option.map_some, dir, number,
    rotation, Option.bind_eq_bind, Option.bind_some]

theorem textRead (coherent : Coherent s) (written : s.toTable? = some t) (readsBack : ReadsBack t) :
    ∃ events, ofText? (Toml.toText t) = some (s, events) := by
  obtain ⟨events, read⟩ := tableRead coherent written
  exact ⟨events, ofTextIff.mpr ⟨t, readsBack, read⟩⟩

theorem toTextIff {text : String} :
    s.toText? = some text ↔ ∃ t, s.toTable? = some t ∧ Toml.toText t = text := by
  simp only [toText?, Option.map_eq_some_iff]

theorem unwritableIff : s.toText? = none ↔ Toml.largestInteger < s.parallelism := by
  rw [toText?, Option.map_eq_none_iff, toTable?]
  split
  · rename_i fits
    simp only [reduceCtorEq, false_iff, Int.not_lt]
    exact fits
  · rename_i beyond
    simp only [true_iff]
    exact Int.not_le.mp beyond

/-- Settings that cannot be saved have a number too large to write; all others are read as they were
from the text that they are saved as. -/
theorem reloadReproduces (reached : Reached s) (readsBack : ∀ t, s.toTable? = some t → ReadsBack t) :
    (s.toText? = none ↔ Toml.largestInteger < s.parallelism) ∧
      ∀ text, s.toText? = some text → ∃ events, ofText? text = some (s, events) := by
  refine ⟨unwritableIff, fun text saved => ?_⟩
  obtain ⟨t, written, rfl⟩ := toTextIff.mp saved
  exact textRead (reachedCoherent reached) written (readsBack t written)

theorem reloadAfterFailedSet :
    let v := Toml.table [("daily", .integer 7), ("kind", .string "smrt")]
    let s : Settings := ⟨"./backups", .none, 0, some v⟩
    Reached s ∧ (∀ t, s.toTable? = some t → ReadsBack t) ∧
      ∃ text events, s.toText? = some text ∧ ofText? text = some (s, events) := by
  intro v s
  have read : ofText? "[retention]\nkind = \"smrt\"\ndaily = 7\n" =
      some (⟨"./backups", .none, 4, some v⟩, [.retentionUnreadable]) := by cbv
  have failed : (set ⟨"./backups", .none, 4, some v⟩ "prune.parallelism" "0").1 = s := by cbv
  have reached : Reached s := failed ▸ .set "prune.parallelism" "0" (.read read)
  have readsBack : ∀ t, s.toTable? = some t → ReadsBack t := by
    intro t written
    obtain ⟨_, rfl⟩ := toTableIff.mp written
    unfold ReadsBack
    cbv
  have written : ∃ text, s.toText? = some text := ⟨_, rfl⟩
  obtain ⟨text, saved⟩ := written
  obtain ⟨events, again⟩ := (reloadReproduces reached readsBack).2 text saved
  exact ⟨reached, readsBack, text, events, saved, again⟩

end Documents

end Settings
end BackupRotation
