import BackupRotation.Proofs.Reload
/-! A rotation section that is not understood, through changes and reloads. It stays as it was written,
and every backup is kept, until a policy is set to a text that is one; other changes, failed ones among
them, and reloads do not touch it. -/
namespace BackupRotation.Settings

inductive Step where
  | set (key value : String)
  | reload

def reload? (s : Settings) : Option Settings := do
  let (read, _) ← ofText? (← s.toText?)
  some read

/-- Settings that cannot be saved, or not be read again, stay as they are. -/
def step (s : Settings) : Step → Settings
  | .set key value => (s.set key value).1
  | .reload => s.reload?.getD s

def after (s : Settings) (steps : List Step) : Settings := steps.foldl step s

/-- The tables that are written in the course of the steps. -/
def written (s : Settings) : List Step → List Toml.Table
  | [] => []
  | .set key value :: steps => written (s.step (.set key value)) steps
  | .reload :: steps => s.toTable?.toList ++ written (s.step .reload) steps

/-- Whether a step sets the policy to a text that is one, whatever comes of it then. -/
def Replaces : Step → Prop
  | .set key value => key = Key.policy.name ∧ ∃ p, Policy.ofText value = .ok p
  | .reload => False

variable {s : Settings} {steps : List Step}

theorem reloadSame (coherent : Coherent s) (readBack : ∀ t, s.toTable? = some t → ReadsBack t) :
    s.step .reload = s := by
  cases table : s.toTable? with
  | none => simp only [step, reload?, toText?, table, Option.map_none, Option.bind_eq_bind,
      Option.bind_none, Option.getD_none]
  | some t =>
    obtain ⟨events, read⟩ := textRead coherent table (readBack t table)
    simp only [step, reload?, toText?, table, Option.map_some, Option.bind_eq_bind, Option.bind_some,
      read, Option.getD_some]

theorem setReplaces {key value : String} (replaces : Replaces (.set key value)) :
    (s.set key value).1.unreadable = none := by
  obtain ⟨rfl, p, parsed⟩ := replaces
  rw [setAssigned (.policy parsed)]

theorem setSpares {key value : String} (spares : ¬ Replaces (.set key value)) :
    (s.set key value).1.unreadable = s.unreadable :=
  (setApart fun same p parsed => spares ⟨same, p, parsed⟩).2

theorem stepCoherent (coherent : Coherent s) (x : Step)
    (readBack : ∀ t ∈ written s [x], ReadsBack t) : Coherent (s.step x) := by
  cases x with
  | set key value => exact setCoherent coherent key value
  | reload =>
    rw [reloadSame coherent fun t table => readBack t (by simp [written, table])]
    exact coherent

theorem stepUnreadable (coherent : Coherent s) (x : Step)
    (readBack : ∀ t ∈ written s [x], ReadsBack t) :
    (Replaces x → (s.step x).unreadable = none) ∧
      (¬ Replaces x → (s.step x).unreadable = s.unreadable) := by
  cases x with
  | set key value => exact ⟨setReplaces, setSpares⟩
  | reload =>
    rw [reloadSame coherent fun t table => readBack t (by simp [written, table])]
    exact ⟨False.elim, fun _ => rfl⟩

theorem writtenCons (s : Settings) (x : Step) (steps : List Step) :
    written s (x :: steps) = written s [x] ++ written (s.step x) steps := by
  cases x with
  | set key value => rfl
  | reload => simp only [written, List.append_nil]

theorem afterCoherent (coherent : Coherent s) (readBack : ∀ t ∈ written s steps, ReadsBack t) :
    Coherent (after s steps) := by
  induction steps generalizing s with
  | nil => exact coherent
  | cons x steps ih =>
    rw [writtenCons] at readBack
    obtain ⟨now, later⟩ := List.forall_mem_append.mp readBack
    exact ih (stepCoherent coherent x now) later

theorem afterUnreadable (coherent : Coherent s) (readBack : ∀ t ∈ written s steps, ReadsBack t) :
    ((∃ x ∈ steps, Replaces x) → (after s steps).unreadable = none) ∧
      ((∀ x ∈ steps, ¬ Replaces x) → (after s steps).unreadable = s.unreadable) := by
  induction steps generalizing s with
  | nil => simp [after]
  | cons x steps ih =>
    rw [writtenCons] at readBack
    obtain ⟨now, later⟩ := List.forall_mem_append.mp readBack
    obtain ⟨replaced, spared⟩ := stepUnreadable coherent x now
    obtain ⟨cleared, held⟩ := ih (stepCoherent coherent x now) later
    constructor
    · rintro ⟨y, member, replaces⟩
      -- the last such step decides, so the first one counts only where no other follows
      by_cases again : ∃ z ∈ steps, Replaces z
      · exact cleared again
      · have first : Replaces x := by
          rcases List.mem_cons.mp member with rfl | rest
          · exact replaces
          · exact absurd ⟨y, rest, replaces⟩ again
        have none' : ∀ z ∈ steps, ¬ Replaces z := fun z hz replaces => again ⟨z, hz, replaces⟩
        exact (held none').trans (replaced first)
    · intro spare
      obtain ⟨first, rest⟩ := List.forall_mem_cons.mp spare
      exact (held rest).trans (spared first)

theorem misreadHeld {t : Toml.Table} {v : Toml} {events : List Event}
    (found : t.get? "retention" = some v) (misread : ∀ p, Rotation.read v ≠ .ok p)
    (read : ofTable? t = some (s, events)) : s.unreadable = some v := by
  have rotation := ofTableRotation read
  obtain ⟨e, kept⟩ := rotationMisread misread
  rw [found, kept] at rotation
  exact (congrArg (fun r => r.2.1) rotation).symm

/-- From a document whose rotation section is not understood, the settings hold the section exactly as
long as no policy was set to a text that is one. They keep every backup as long, and whatever they are
saved as has the section as it was first read. -/
theorem fallbackHeld {text : String} {document : Toml.Table} {v : Toml} {s₀ : Settings}
    {events : List Event} (parsed : Toml.ofText? text = some document)
    (found : document.get? "retention" = some v) (misread : ∀ p, Rotation.read v ≠ .ok p)
    (read : ofText? text = some (s₀, events)) (steps : List Step)
    (readBack : ∀ t ∈ written s₀ steps, ReadsBack t) :
    let s := after s₀ steps
    (s.isFallback = true ↔ ∀ x ∈ steps, ¬ Replaces x) ∧
      (s.isFallback = true → s.policy = .none ∧
        ∀ out, s.toText? = some out → ∃ t, Toml.toText t = out ∧ t.get? "retention" = some v ∧
          (ReadsBack t → Toml.ofText? out = some t)) := by
  intro s
  obtain ⟨t, same, built⟩ := ofTextIff.mp read
  obtain rfl : document = t := Option.some.inj (parsed.symm.trans same)
  have coherent : Coherent s₀ := ofTableCoherent built
  obtain ⟨cleared, held⟩ := afterUnreadable coherent readBack
  have spared (fallback : s.isFallback = true) : ∀ x ∈ steps, ¬ Replaces x := by
    intro x member replaces
    rw [isFallback, cleared ⟨x, member, replaces⟩] at fallback
    cases fallback
  have first (spare : ∀ x ∈ steps, ¬ Replaces x) : s.unreadable = some v :=
    (held spare).trans (misreadHeld found misread built)
  refine ⟨⟨spared, fun spare => by rw [isFallback, first spare]; rfl⟩, fun fallback => ?_⟩
  have unreadable := first (spared fallback)
  refine ⟨(afterCoherent coherent readBack v unreadable).1, fun out saved => ?_⟩
  obtain ⟨t, table, rfl⟩ := toTextIff.mp saved
  refine ⟨t, rfl, ?_, id⟩
  rw [sectionWritten table, rotationSection, unreadable]
  rfl

theorem fallbackHeldThroughFailures :
    let v := Toml.table [("kind", .string "smrt"), ("weekly", .integer 4)]
    let s₀ : Settings := ⟨"./backups", .none, 4, some v⟩
    let steps := [.set "storage.backup_dir" "/srv/dumps", .set "retention.policy" "weekly:2",
      .set "prune.parallelism" "0", .reload]
    Toml.ofText? "[retention]\nkind = \"smrt\"\nweekly = 4\n" = some [("retention", v)] ∧
      (∀ p, Rotation.read v ≠ .ok p) ∧
      ofText? "[retention]\nkind = \"smrt\"\nweekly = 4\n" = some (s₀, [.retentionUnreadable]) ∧
      (∀ t ∈ written s₀ steps, ReadsBack t) ∧ (after s₀ steps).isFallback = true := by
  intro v s₀ steps
  have parsed : Toml.ofText? "[retention]\nkind = \"smrt\"\nweekly = 4\n" =
      some [("retention", v)] := by cbv
  have misread : ∀ p, Rotation.read v ≠ .ok p := by
    have error : Rotation.read v = .error .retentionUnreadable := by cbv
    simp [error]
  have read : ofText? "[retention]\nkind = \"smrt\"\nweekly = 4\n" =
      some (s₀, [.retentionUnreadable]) := by cbv
  have readBack : ∀ t ∈ written s₀ steps, ReadsBack t := by
    have once : written s₀ steps = [[("prune", .table [("parallelism", .integer 0)]),
      ("retention", v), ("storage", .table [("backup_dir", .string "/srv/dumps")])]] := by rfl
    rw [once]
    simp only [List.forall_mem_singleton, ReadsBack]
    cbv
  have spared : ∀ x ∈ steps, ¬ Replaces x := by
    have refused : Policy.ofText "weekly:2" = .error (.unknownKind "weekly") := by rfl
    simp [steps, Replaces, Key.name, refused]
  exact ⟨parsed, misread, read, readBack,
    (fallbackHeld parsed rfl misread read steps readBack).1.mpr spared⟩

end BackupRotation.Settings
