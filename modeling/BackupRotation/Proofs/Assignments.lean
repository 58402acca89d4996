import BackupRotation.Proofs.PolicyGrammar
import BackupRotation.Settings.Basic
import Mathlib.Tactic
/-! Settings changed by a text under a key. A text that is read for its key changes what stands under that
key alone, and reading it back gives a text that changes nothing more. The result is checked only after
the change, so a value that is out of range stands although the change fails. -/
namespace BackupRotation

namespace Settings

/-- The settings that a text makes of `s` if it is read for the key. -/
inductive Assigns (s : Settings) (value : String) : Key → Settings → Prop where
  | backupDir : Assigns s value .backupDir { s with backupDir := value }
  | policy {p} (read : Policy.ofText value = .ok p) :
      Assigns s value .policy { s with policy := p, unreadable := none }
  | parallelism {n} (read : Text.natural64? value.toList = some n) :
      Assigns s value .parallelism { s with parallelism := n }

/-- What the check of the settings asks of the one under a key. -/
def Passes (s : Settings) : Key → Prop
  | .backupDir => s.backupDir ≠ ""
  | .policy => True
  | .parallelism => 1 ≤ s.parallelism ∧ s.parallelism ≤ 64

/-- The texts that are read for a key, but for a value that does not pass. -/
def OutOfRange (value : String) : Key → Prop
  | .backupDir => value = ""
  | .policy => False
  | .parallelism => ∃ n, Text.natural64? value.toList = some n ∧ ¬(1 ≤ n ∧ n ≤ 64)

variable {s t : Settings} {key value : String} {k : Key}

theorem nameOfKey (found : Key.ofName? key = some k) : k.name = key := by
  have same := List.find?_some found
  simpa using same

theorem Key.nameInjective {j k : Key} (same : j.name = k.name) : j = k := by
  have found := ofName?_name j
  rw [same, ofName?_name] at found
  exact (Option.some.inj found).symm

theorem passesIff : s.validate = .ok () ↔ ∀ k, s.Passes k := by
  rw [validateIff]
  constructor
  · intro valid k
    cases k with
    | backupDir => exact valid.1
    | policy => trivial
    | parallelism => exact valid.2
  · intro passes
    exact ⟨passes .backupDir, passes .parallelism⟩

theorem assignIff : s.assign value k = .ok t ↔ Assigns s value k t := by
  constructor
  · intro assigned
    cases k with
    | backupDir =>
      cases assigned
      exact .backupDir
    | policy =>
      cases read : Policy.ofText value with
      | error e => simp [assign, read] at assigned
      | ok p =>
        obtain rfl := by simpa [assign, read] using assigned
        exact .policy read
    | parallelism =>
      cases read : Text.natural64? value.toList with
      | none => simp [assign, read] at assigned
      | some n =>
        obtain rfl := by simpa [assign, read] using assigned
        exact .parallelism read
  · intro assigns
    cases assigns with
    | backupDir => rfl
    | policy read => simp only [assign, read]
    | parallelism read => simp only [assign, read]

theorem setCases (s : Settings) (key value : String) :
    (∃ k t, k.name = key ∧ Assigns s value k t ∧ s.set key value = (t, t.validate)) ∨
      (∀ k t, k.name = key → ¬Assigns s value k t) ∧ ∃ e, s.set key value = (s, .error e) := by
  cases found : Key.ofName? key with
  | none =>
    refine .inr ⟨fun k t named => ?_, .unknownKey key, by simp only [set, found]⟩
    rw [← named, Key.ofName?_name] at found
    cases found
  | some k =>
    have named := nameOfKey found
    cases assigned : s.assign value k with
    | ok t => exact .inl ⟨k, t, named, assignIff.mp assigned, by simp only [set, found, assigned]⟩
    | error e =>
      refine .inr ⟨fun j t same assigns => ?_, e, by simp only [set, found, assigned]⟩
      obtain rfl := Key.nameInjective (same.trans named.symm)
      cases assigned.symm.trans (assignIff.mpr assigns)

section Assigned
variable (assigns : Assigns s value k t)
include assigns

theorem setAssigned : s.set k.name value = (t, t.validate) := by
  simp only [set, Key.ofName?_name, assignIff.mpr assigns]

theorem assignsApart {other : Key} (apart : other ≠ k) :
    t.text other = s.text other ∧ (t.Passes other ↔ s.Passes other) := by
  cases assigns with
  | backupDir =>
    cases other with
    | backupDir => exact absurd rfl apart
    | policy => exact ⟨rfl, .rfl⟩
    | parallelism => exact ⟨rfl, .rfl⟩
  | policy read =>
    cases other with
    | backupDir => exact ⟨rfl, .rfl⟩
    | policy => exact absurd rfl apart
    | parallelism => exact ⟨rfl, .rfl⟩
  | parallelism read =>
    cases other with
    | backupDir => exact ⟨rfl, .rfl⟩
    | policy => exact ⟨rfl, .rfl⟩
    | parallelism => exact absurd rfl apart

theorem assignsGet {other : String} (apart : other ≠ k.name) : t.get? other = s.get? other := by
  unfold get?
  cases found : Key.ofName? other with
  | none => rfl
  | some j =>
    have different : j ≠ k := by
      rintro rfl
      exact apart (nameOfKey found).symm
    exact congrArg some (assignsApart assigns different).1

theorem assignsUnreadable : t.unreadable = if k = .policy then none else s.unreadable := by
  cases assigns <;> rfl

theorem assignsAgain : Assigns t (t.text k) k t := by
  cases assigns with
  | backupDir => exact .backupDir
  | policy read => exact .policy (Policy.writtenRead _)
  | parallelism read =>
    have again := Text.natural64Digits (Text.natural64Below read)
    refine .parallelism ?_
    rwa [text, String.toList_ofList]

theorem outOfRangeIff : OutOfRange value k ↔ ¬t.Passes k := by
  cases assigns with
  | backupDir => exact not_not.symm
  | policy read => exact (not_true).symm
  | parallelism read =>
    constructor
    · rintro ⟨n, read', range⟩
      cases read.symm.trans read'
      exact range
    · exact fun range => ⟨_, read, range⟩

end Assigned

theorem setDone (done : (s.set key value).2 = .ok ()) :
    ∃ k t, k.name = key ∧ Assigns s value k t ∧ s.set key value = (t, .ok ()) ∧ t.validate = .ok () := by
  obtain ⟨k, t, named, assigns, same⟩ | ⟨_, e, same⟩ := setCases s key value
  · rw [same] at done
    exact ⟨k, t, named, assigns, same.trans (congrArg (Prod.mk t) done), done⟩
  · rw [same] at done
    cases done

/-- What a change leaves that succeeds passes, and under the key there is a text that changes nothing any
more. Nothing else is touched, but a section that was not understood is gone once the policy is set. -/
theorem setReadBack (done : (s.set key value).2 = .ok ()) :
    let t := (s.set key value).1
    t.validate = .ok () ∧ (∃ text, t.get? key = some text ∧ t.set key text = (t, .ok ())) ∧
      (∀ other, other ≠ key → t.get? other = s.get? other) ∧
      t.isFallback = (s.isFallback && key != Key.policy.name) := by
  obtain ⟨k, t, rfl, assigns, same, valid⟩ := setDone done
  simp only [same]
  refine ⟨valid, ⟨t.text k, get?_name t k, ?_⟩, fun other apart => assignsGet assigns apart, ?_⟩
  · rw [setAssigned (assignsAgain assigns), valid]
  · rw [isFallback, assignsUnreadable assigns]
    cases k <;> simp [isFallback, Key.name]

theorem setReadBackNamed :
    let v := Toml.table [("daily", .integer 7), ("kind", .string "smrt")]
    let s : Settings := ⟨"/srv/dumps", .none, 4, some v⟩
    let t : Settings := ⟨"/srv/dumps", .smart 7 0 0 0, 4, none⟩
    s.set "retention.policy" " Smart : weekly = -3, daily=+7 " = (t, .ok ()) ∧
      t.set "retention.policy" "smart:7,0,0,0" = (t, .ok ()) ∧ t.isFallback = false := by
  intro v s t
  have read : Policy.ofText " Smart : weekly = -3, daily=+7 " = .ok (.smart 7 0 0 0) := by rfl
  have same : s.set "retention.policy" " Smart : weekly = -3, daily=+7 " = (t, .ok ()) :=
    setAssigned (.policy read)
  obtain ⟨_, ⟨text, shown, again⟩, _, fallback⟩ := setReadBack (congrArg Prod.snd same)
  rw [same] at shown again fallback
  have written : t.get? "retention.policy" = some "smart:7,0,0,0" := by rfl
  cases written.symm.trans shown
  exact ⟨same, again, fallback⟩

theorem outOfRangeAssigns (s : Settings) (range : OutOfRange value k) : ∃ t, Assigns s value k t := by
  cases k with
  | backupDir => exact ⟨_, .backupDir⟩
  | policy => exact range.elim
  | parallelism =>
    obtain ⟨n, read, _⟩ := range
    exact ⟨_, .parallelism read⟩

theorem refusedOutOfRange {e : InvalidSetting} (valid : s.validate = .ok ()) (assigns : Assigns s value k t)
    (refused : t.validate = .error e) : OutOfRange value k := by
  refine (outOfRangeIff assigns).mpr fun passes => ?_
  have all : ∀ j, t.Passes j := by
    intro j
    by_cases own : j = k
    · exact own ▸ passes
    · exact (assignsApart assigns own).2.mpr (passesIff.mp valid j)
  cases refused.symm.trans (passesIff.mpr all)

/-- A change that fails leaves other settings than there were exactly if its text is read for the key, but
for a value out of range. That value then stands, alone, and every change of another setting fails too. -/
theorem failedSet {e : InvalidSetting} (valid : s.validate = .ok ())
    (failed : (s.set key value).2 = .error e) :
    let t := (s.set key value).1
    (t ≠ s ↔ ∃ k, k.name = key ∧ OutOfRange value k) ∧
      (t ≠ s → t.validate = .error e ∧ ∀ other text, other ≠ key → (t.set other text).2 ≠ .ok ()) ∧
      (∀ other, other ≠ key → t.get? other = s.get? other) ∧ t.unreadable = s.unreadable := by
  obtain ⟨k, t, rfl, assigns, same⟩ | ⟨unread, _, same⟩ := setCases s key value
  · rw [same] at failed
    simp only [same]
    have range := refusedOutOfRange valid assigns failed
    have changed : t ≠ s := by
      rintro rfl
      cases failed.symm.trans valid
    refine ⟨iff_of_true changed ⟨k, rfl, range⟩, fun _ => ⟨failed, fun other text apart done => ?_⟩,
      fun other apart => assignsGet assigns apart, ?_⟩
    · obtain ⟨j, t', rfl, assigns', _, valid'⟩ := setDone done
      have other : k ≠ j := fun own => apart (congrArg Key.name own.symm)
      have passes := (assignsApart assigns' other).2.mp (passesIff.mp valid' k)
      exact (outOfRangeIff assigns).mp range passes
    · rw [assignsUnreadable assigns, if_neg]
      rintro rfl
      exact range
  · rw [same]
    refine ⟨iff_of_false (fun changed => changed rfl) ?_, fun changed => absurd rfl changed, fun _ _ => rfl,
      rfl⟩
    intro known
    obtain ⟨k, named, range⟩ := known
    obtain ⟨t, assigns⟩ := outOfRangeAssigns s range
    exact unread k t named assigns

theorem failedSetMisread :
    let v := Toml.table [("daily", .integer 7), ("kind", .string "smrt")]
    let s : Settings := ⟨"/srv/dumps", .none, 4, some v⟩
    s.validate = .ok () ∧ (s.set "prune.parallelism" "+65").2 = .error (.parallelismRange 65) ∧
      (s.set "prune.parallelism" "+65").1 ≠ s ∧
        ((s.set "prune.parallelism" "+65").1.set "storage.backup_dir" "/srv").2 ≠ .ok () := by
  intro v s
  have failed : (s.set "prune.parallelism" "+65").2 = .error (.parallelismRange 65) := by cbv
  have range : OutOfRange "+65" .parallelism := ⟨65, by cbv, by decide⟩
  obtain ⟨changed, stuck, _⟩ := failedSet (s := s) rfl failed
  have stands := changed.mpr ⟨.parallelism, rfl, range⟩
  exact ⟨rfl, failed, stands, (stuck stands).2 _ _ (by decide)⟩

theorem failedSetStands :
    ¬∀ (s : Settings) (key value : String) (e : InvalidSetting), s.validate = .ok () →
      (s.set key value).2 = .error e → (s.set key value).1 = s := by
  intro unchanged
  have same := unchanged initial "prune.parallelism" "0" (.parallelismRange 0) rfl (by cbv)
  have number := congrArg parallelism same
  cases number

end Settings
end BackupRotation
