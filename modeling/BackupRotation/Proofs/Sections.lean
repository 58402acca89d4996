import BackupRotation.Proofs.Reload
/-! The sections of a settings document, each read by itself. A document is refused for its storage or
its pruning, never for its rotation, and what the rotation makes of the settings is nothing but the
policy and whether it is a fallback. -/
namespace BackupRotation.Settings

def storage? (t : Toml.Table) : Option String :=
  onlyField? "backup_dir" directory? initial.backupDir (t.get? "storage")

def pruning? (t : Toml.Table) : Option Nat :=
  onlyField? "parallelism" natural? initial.parallelism (t.get? "prune")

/-- What a rotation section, if there is one, makes of the settings. -/
inductive Rotates (s : Settings) : Option Toml → Prop where
  | absent (policy : s.policy = .none) (settled : s.isFallback = false) : Rotates s none
  | understood {v : Toml} (read : Rotation.read v = .ok s.policy) (settled : s.isFallback = false) :
      Rotates s (some v)
  | misread {v : Toml} (misread : ∀ p, Rotation.read v ≠ .ok p) (policy : s.policy = .none)
      (fallback : s.isFallback = true) : Rotates s (some v)

variable {a : String} {t : Toml.Table} {s : Settings} {events : List Event}

theorem ofTableIff : ofTable? t = some (s, events) ↔ storage? t = some s.backupDir ∧
    pruning? t = some s.parallelism ∧
      rotationOf (t.get? "retention") = (s.policy, s.unreadable, events) := by
  simp only [ofTable?, Option.bind_eq_bind, Option.bind_eq_some_iff]
  constructor
  · rintro ⟨dir, storage, n, pruning, built⟩
    cases built
    exact ⟨storage, pruning, rfl⟩
  · rintro ⟨storage, pruning, rotation⟩
    exact ⟨_, storage, _, pruning, by rw [rotation]⟩

theorem refusedIff : ofTable? t = none ↔ storage? t = none ∨ pruning? t = none := by
  simp only [ofTable?, Option.bind_eq_bind]
  change (storage? t).bind (fun dir => (pruning? t).bind _) = none ↔ _
  cases storage? t with
  | none => simp
  | some dir => cases pruning? t <;> simp

theorem tableRotates (read : ofTable? t = some (s, events)) : Rotates s (t.get? "retention") := by
  have rotation := (ofTableIff.mp read).2.2
  cases found : t.get? "retention" with
  | none =>
    simp only [found, rotationOf, Prod.mk.injEq] at rotation
    obtain ⟨policy, unreadable, _⟩ := rotation
    exact .absent policy.symm (by rw [isFallback, ← unreadable]; rfl)
  | some v =>
    rw [found] at rotation
    by_cases understood : ∃ p, Rotation.read v = .ok p
    · obtain ⟨p, understood⟩ := understood
      simp only [rotationUnderstood understood, Prod.mk.injEq] at rotation
      obtain ⟨rfl, unreadable, _⟩ := rotation
      exact .understood understood (by rw [isFallback, ← unreadable]; rfl)
    · have misread := not_exists.mp understood
      obtain ⟨e, kept⟩ := rotationMisread misread
      simp only [kept, Prod.mk.injEq] at rotation
      obtain ⟨policy, unreadable, _⟩ := rotation
      exact .misread misread policy.symm (by rw [isFallback, ← unreadable]; rfl)

theorem refusedText (parsed : Toml.ofText? a = some t) : ofText? a = none ↔ ofTable? t = none := by
  simp only [ofText?, parsed, Option.bind_eq_bind, Option.bind_some]

theorem readTable (parsed : Toml.ofText? a = some t) (read : ofText? a = some (s, events)) :
    ofTable? t = some (s, events) := by
  simpa only [ofText?, parsed, Option.bind_eq_bind, Option.bind_some] using read

/-- Documents that differ in the rotation section only are both refused or both read, and read with the
same storage and pruning. What is read has no policy and no fallback where the section is absent, the
policy of the section where it is understood, and the fallback to no policy otherwise. -/
theorem sectionsApart :
    (∀ {a b t u}, Toml.ofText? a = some t → Toml.ofText? b = some u →
      (∀ key, key ≠ "retention" → t.get? key = u.get? key) →
        (ofText? a = none ↔ ofText? b = none) ∧
          ∀ {r s events others}, ofText? a = some (r, events) → ofText? b = some (s, others) →
            r.backupDir = s.backupDir ∧ r.parallelism = s.parallelism) ∧
      ∀ {a t s events}, Toml.ofText? a = some t → ofText? a = some (s, events) →
        Rotates s (t.get? "retention") := by
  refine ⟨fun {a b t u} parsed parsed' agree => ?_, fun parsed read => tableRotates (readTable parsed read)⟩
  have storage : storage? t = storage? u := by rw [storage?, agree _ (by decide), storage?]
  have pruning : pruning? t = pruning? u := by rw [pruning?, agree _ (by decide), pruning?]
  refine ⟨?_, fun read read' => ?_⟩
  · rw [refusedText parsed, refusedText parsed', refusedIff, refusedIff, storage, pruning]
  · obtain ⟨dir, number, _⟩ := ofTableIff.mp (readTable parsed read)
    obtain ⟨dir', number', _⟩ := ofTableIff.mp (readTable parsed' read')
    exact ⟨Option.some.inj (dir.symm.trans (storage.trans dir')),
      Option.some.inj (number.symm.trans (pruning.trans number'))⟩

theorem sectionsApartNumber : ∃ s events,
    ofText? "retention = 5\n[prune]\nparallelism = 8\n" = some (s, events) ∧ s.parallelism = 8 ∧
      Rotates s (some (.integer 5)) := by
  let prune := Toml.table [("parallelism", .integer 8)]
  have parsed : Toml.ofText? "retention = 5\n[prune]\nparallelism = 8\n" =
      some [("prune", prune), ("retention", .integer 5)] := by cbv
  have parsed' : Toml.ofText? "[prune]\nparallelism = 8\n" = some [("prune", prune)] := by cbv
  have read' : ofText? "[prune]\nparallelism = 8\n" = some (⟨"./backups", .none, 8, none⟩, []) := by
    rw [ofText?, parsed']
    rfl
  have agree (key : String) (other : key ≠ "retention") :
      Toml.Table.get? [("prune", prune), ("retention", .integer 5)] key =
        Toml.Table.get? [("prune", prune)] key := by
    by_cases same : "prune" = key <;> simp [Toml.Table.get?, same, Ne.symm other]
  obtain ⟨refused, alike⟩ := sectionsApart.1 parsed parsed' agree
  cases read : ofText? "retention = 5\n[prune]\nparallelism = 8\n" with
  | none => cases (refused.mp read).symm.trans read'
  | some found =>
    obtain ⟨s, events⟩ := found
    exact ⟨s, events, rfl, (alike read read').2, sectionsApart.2 parsed read⟩

end BackupRotation.Settings
