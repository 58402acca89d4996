import BackupRotation.Proofs.Interchange
import BackupRotation.Proofs.JsonReading
import BackupRotation.Proofs.SectionKeys
/-! Records saved as JSON text and read again. Numbers that fit the fields they stand in, names of any
characters and points in time of any year come back as they went out. -/
namespace BackupRotation

/-- The numbers of a reason have the width of its fields. -/
def Reason.Fits : Reason → Prop
  | .keepAll => True
  | .recent rank => rank < 18446744073709551616
  | .slot _ index => index < 4294967296

namespace Record
open Json (Plain Within64)

section Tags
variable {members : List (String × Json)} {tag : String} {kept : Json → Bool} {j : Json} {t : Tagged}
  {p : Policy}

theorem taggedAnyway (tagged : tagged? tag kept j = some t) : tagged? tag (fun _ => true) j = some t := by
  simp only [tagged?, List.all_eq_true, implies_true, if_true] at tagged ⊢
  split at tagged
  · split at tagged
    · split at tagged
      · exact tagged
      · cases tagged
    · cases tagged
  · split at tagged
    · exact tagged
    · cases tagged
  · cases tagged

theorem taggedKept (keep : ∀ m ∈ members, kept m.2 = true) :
    tagged? tag kept (.object members) = tagged? tag (fun _ => true) (.object members) := by
  have rest : (members.filter fun m => m.1 ≠ tag).all (fun m => kept m.2) = true :=
    List.all_eq_true.mpr fun m member => keep m (List.mem_of_mem_filter member)
  simp only [tagged?, rest, List.all_eq_true, implies_true, if_true]

theorem policyGives (given : policy? (.object members) = some p) : Gives members p := by
  obtain ⟨t, tagged, policy⟩ := Option.bind_eq_some_iff.mp given
  exact policyGiven.mp (Option.bind_eq_some_iff.mpr ⟨t, taggedAnyway tagged, policy⟩)

theorem policyKept (keep : ∀ m ∈ members, keeps 1 m.2 = true) (gives : Gives members p) :
    policy? (.object members) = some p := by
  have given := policyGiven.mpr gives
  rwa [← taggedKept keep] at given

end Tags

theorem naturalRead {n limit : Nat} (below : n < limit) : natural? limit (.number n) = some n := by
  simp [natural?, below]

theorem listMapped {α β : Type} {read : Json → Option β} {write : α → Json} {f : α → β} {xs : List α}
    (each : ∀ x ∈ xs, read (write x) = some (f x)) : list? read (.array (xs.map write)) = some (xs.map f) := by
  rw [list?]
  induction xs with
  | nil => rfl
  | cons x xs ih =>
    have rest := ih fun y member => each y (List.mem_cons_of_mem _ member)
    rw [List.map_cons, List.mapM_cons, each x List.mem_cons_self, rest]
    rfl

theorem listRead {α : Type} {read : Json → Option α} {write : α → Json} {xs : List α}
    (each : ∀ x ∈ xs, read (write x) = some x) : list? read (.array (xs.map write)) = some xs := by
  have mapped := listMapped (f := id) each
  rwa [List.map_id] at mapped

theorem instantRead (t : Instant) : instant? (ofInstant t) = some t := by
  simp [instant?, ofInstant, text?, Instant.interchangeRead]

theorem policyRead (p : Policy) : policy? (ofPolicy p) = some p := by
  cases p with
  | none => exact policyKept (by simp [keeps, Json.isMeaningful, Json.depth, depthLimit]) (.none rfl)
  | simple n =>
    exact policyKept (by simp [ofCount, keeps, Json.isMeaningful, Json.depth, depthLimit])
      (.simple rfl rfl (countRead n))
  | smart d w m y =>
    refine policyKept (by simp [ofCount, keeps, Json.isMeaningful, Json.depth, depthLimit])
      (.smart rfl fun t => ?_)
    cases t with
    | daily => exact countRead d
    | weekly => exact countRead w
    | monthly => exact countRead m
    | yearly => exact countRead y

theorem tierRead (t : Tier) : tier? (ofTier t) = some t := by
  cases t <;> rfl

theorem artifactGiven {j id size created : Json} {name : String} {n : Nat} {t : Instant}
    (fields : fields? ["id", "size_bytes", "timestamp"] j = some [id, size, created])
    (named : text? id = some name) (sized : natural? 18446744073709551616 size = some n)
    (timed : instant? created = some t) : artifact? j = some ⟨name, UInt64.ofNat n, t⟩ := by
  simp only [artifact?, fields, named, sized, timed, Option.bind_eq_bind, Option.bind_some]

theorem artifactRead (a : Artifact) : artifact? (ofArtifact a) = some a := by
  have below := a.size.toNat_lt
  have fields : fields? ["id", "size_bytes", "timestamp"] (ofArtifact a) =
      some [.string a.id, .number a.size.toNat, ofInstant a.created] := by
    simp [fields?, ofArtifact, required?, named]
  have given := artifactGiven fields rfl (naturalRead (by omega)) (instantRead a.created)
  rwa [UInt64.ofNat_toNat] at given

theorem partitionRead (p : Partition) : partition? (ofPartition p) = some p := by
  have fields : fields? ["keep", "delete"] (ofPartition p) =
      some [ofArtifacts p.keep, ofArtifacts p.delete] := by
    simp [fields?, ofPartition, required?, named]
  have list (as : List Artifact) : list? artifact? (ofArtifacts as) = some as :=
    listRead fun a _ => artifactRead a
  simp [partition?, fields, list]

section Reasons
variable {level : Nat} {j rest n : Json} {rank index : Nat}

theorem recentGiven (tagged : tagged? "reason" (keeps level) j = some ⟨"recent", rest⟩)
    (fields : fields? ["rank"] rest = some [n]) (ranked : natural? 18446744073709551616 n = some rank) :
    reason? level j = some (.recent rank) := by
  simp [reason?, tagged, fields, ranked]

theorem slotGiven {tier : Json} {t : Tier} (tagged : tagged? "reason" (keeps level) j = some ⟨"slot", rest⟩)
    (fields : fields? ["tier", "slot"] rest = some [tier, n]) (kept : keptTier? tier = some t)
    (counted : natural? 4294967296 n = some index) : reason? level j = some (.slot t index) := by
  simp [reason?, tagged, fields, kept, counted]

theorem reasonRead {r : Reason} (fits : r.Fits) (shallow : level ≤ depthLimit) :
    reason? level (ofReason r) = some r := by
  have kept (n : Nat) : keeps level (.number n) = true := by
    simp [keeps, Json.isMeaningful, Json.depth, shallow]
  cases r with
  | keepAll => rfl
  | recent rank =>
    have tagged : tagged? "reason" (keeps level) (ofReason (.recent rank)) =
        some ⟨"recent", .object [("rank", .number rank)]⟩ := by
      simp [tagged?, ofReason, named, kept]
    exact recentGiven tagged (by simp [fields?, required?, named]) (naturalRead fits)
  | slot t index =>
    have keptTier : keeps level (ofTier t) = true := by
      simp [ofTier, keeps, Json.isMeaningful, Json.depth, shallow]
    have tagged : tagged? "reason" (keeps level) (ofReason (.slot t index)) =
        some ⟨"slot", .object [("tier", ofTier t), ("slot", .number index)]⟩ := by
      simp [tagged?, ofReason, named, kept, keptTier]
    have tier : keptTier? (ofTier t) = some t := by cases t <;> rfl
    exact slotGiven tagged (by simp [fields?, required?, named]) tier (naturalRead fits)

end Reasons

theorem verdictGiven {j artifact keep reasons : Json} {v : Verdict}
    (fields : fields? ["artifact", "keep", "reasons"] j = some [artifact, keep, reasons])
    (named : artifact? artifact = some v.artifact) (kept : truth? keep = some v.keep)
    (listed : list? (reason? 3) reasons = some v.reasons) : verdict? j = some v := by
  simp only [verdict?, fields, named, kept, listed, Option.bind_eq_bind, Option.bind_some]

theorem verdictRead {v : Verdict} (fits : ∀ r ∈ v.reasons, r.Fits) : verdict? (ofVerdict v) = some v := by
  have fields : fields? ["artifact", "keep", "reasons"] (ofVerdict v) =
      some [ofArtifact v.artifact, .bool v.keep, .array (v.reasons.map ofReason)] := by
    simp [fields?, ofVerdict, required?, named]
  have reasons : list? (reason? 3) (.array (v.reasons.map ofReason)) = some v.reasons :=
    listRead fun r member => reasonRead (fits r member) (by decide)
  exact verdictGiven fields (artifactRead v.artifact) rfl reasons

section Texts
variable {α : Type} {read : Json → Option α} {write : α → Json} {x : α}

/-- A value is read from its JSON text, whether it stands on one line or on several. -/
def Recovered (read : Json → Option α) (write : α → Json) (x : α) : Prop :=
  ∀ text ∈ [(write x).toText, (write x).toPrettyText], (Json.ofText? text).bind read = some x

theorem recovered (plain : Plain (write x)) (again : read (write x) = some x) : Recovered read write x := by
  intro text member
  rw [Json.readsBack plain text member, Option.bind_some, again]

theorem plainList {xs : List α} (each : ∀ x ∈ xs, Plain (write x)) : Plain (.array (xs.map write)) :=
  .array (List.forall_mem_map.mpr each)

theorem plainNatural {n : Nat} (below : n < 18446744073709551616) : Plain (.number n) :=
  .number ⟨by omega, by omega⟩

theorem plainCount (n : UInt32) : Plain (ofCount n) := by
  have below := n.toNat_lt
  exact plainNatural (by omega)

theorem plainPolicy (p : Policy) : Plain (ofPolicy p) := by
  cases p <;> exact .object (by simp [plainCount, Plain.string])

theorem plainTier (t : Tier) : Plain (ofTier t) := .string t.name

theorem plainArtifact (a : Artifact) : Plain (ofArtifact a) := by
  have below := a.size.toNat_lt
  have size : Plain (.number a.size.toNat) := plainNatural (by omega)
  exact .object (by simp [size, ofInstant, Plain.string])

theorem plainPartition (p : Partition) : Plain (ofPartition p) := by
  have list (as : List Artifact) : Plain (ofArtifacts as) := plainList fun a _ => plainArtifact a
  exact .object (by simp [list])

theorem plainReason {r : Reason} (fits : r.Fits) : Plain (ofReason r) := by
  cases r with
  | keepAll => exact .object (by simp [Plain.string])
  | recent rank =>
    have number : Plain (.number rank) := plainNatural fits
    exact .object (by simp [number, Plain.string])
  | slot t index =>
    have below : index < 4294967296 := fits
    have number : Plain (.number index) := plainNatural (by omega)
    exact .object (by simp [number, plainTier, Plain.string])

theorem plainVerdict {v : Verdict} (fits : ∀ r ∈ v.reasons, r.Fits) : Plain (ofVerdict v) := by
  have reasons : Plain (.array (v.reasons.map ofReason)) :=
    plainList fun r member => plainReason (fits r member)
  exact .object (by simp [plainArtifact, reasons, Plain.bool])

end Texts

/-- Every record comes back from its JSON text: all policies, tiers, backups and partitions, and the
reasons and verdicts whose numbers fit. -/
theorem recordsRecovered :
    (∀ p, Recovered policy? ofPolicy p) ∧ (∀ t, Recovered tier? ofTier t) ∧
      (∀ r : Reason, r.Fits → Recovered (reason? 1) ofReason r) ∧
      (∀ a, Recovered artifact? ofArtifact a) ∧ (∀ p, Recovered partition? ofPartition p) ∧
      ∀ v : Verdict, (∀ r ∈ v.reasons, r.Fits) → Recovered verdict? ofVerdict v :=
  ⟨fun p => recovered (plainPolicy p) (policyRead p), fun t => recovered (plainTier t) (tierRead t),
    fun r fits => recovered (plainReason fits) (reasonRead fits (by decide)),
    fun a => recovered (plainArtifact a) (artifactRead a),
    fun p => recovered (plainPartition p) (partitionRead p),
    fun v fits => recovered (plainVerdict fits) (verdictRead fits)⟩

theorem recordsRecoveredLeap :
    let v : Verdict := ⟨⟨"\"\\\x00é😀", 18446744073709551615, ⟨-8334601228741, 1999999999, by decide⟩⟩, true,
      [.keepAll, .recent 18446744073709551615, .slot .yearly 4294967295]⟩
    (∀ r ∈ v.reasons, r.Fits) ∧ (∀ r ∈ v.reasons, Recovered (reason? 1) ofReason r) ∧
      Recovered verdict? ofVerdict v := by
  intro v
  have fits : ∀ r ∈ v.reasons, r.Fits := by simp [v, Reason.Fits]
  obtain ⟨_, _, reasons, _, _, verdicts⟩ := recordsRecovered
  exact ⟨fits, fun r member => reasons r (fits r member), verdicts v fits⟩

end Record
end BackupRotation
