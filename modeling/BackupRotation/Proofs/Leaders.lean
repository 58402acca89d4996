import BackupRotation.Proofs.NewestFirst
/-! The newest of the backups: the time that all ages are measured from, and the one backup that stands
for all whose times are of some kind, the newest of them and the earliest in the list where times are equal. -/
namespace BackupRotation.Artifact

theorem foldLatest (t : Instant) (as : List Artifact) :
    (as.foldl (fun t b => Instant.latest t b.created) t = t ∨
      ∃ a ∈ as, a.created = as.foldl (fun t b => Instant.latest t b.created) t) ∧
    t ≤ as.foldl (fun t b => Instant.latest t b.created) t ∧
    ∀ a ∈ as, a.created ≤ as.foldl (fun t b => Instant.latest t b.created) t := by
  induction as generalizing t with
  | nil => simp [Instant.le_refl]
  | cons b as ih =>
    obtain ⟨source, above, all⟩ := ih (Instant.latest t b.created)
    rw [List.foldl_cons]
    have bounds : t ≤ Instant.latest t b.created ∧ b.created ≤ Instant.latest t b.created := by
      unfold Instant.latest
      split
      · rename_i later
        exact ⟨fun back => Instant.lt_irrefl _ (Instant.lt_trans later back), Instant.le_refl _⟩
      · rename_i early
        exact ⟨Instant.le_refl _, early⟩
    refine ⟨?_, Instant.le_trans bounds.1 above, ?_⟩
    · rcases source with same | ⟨a, ha, same⟩
      · rw [same]
        unfold Instant.latest
        split
        · exact .inr ⟨b, List.mem_cons_self, rfl⟩
        · exact .inl rfl
      · exact .inr ⟨a, List.mem_cons_of_mem _ ha, same⟩
    · intro a ha
      rcases List.mem_cons.mp ha with rfl | ha
      · exact Instant.le_trans bounds.2 above
      · exact all a ha

/-- No backup is newer than `anchor`, and some backup is as new. -/
def Anchored (as : List Artifact) (anchor : Instant) : Prop :=
  (∃ a ∈ as, a.created = anchor) ∧ ∀ a ∈ as, a.created ≤ anchor

theorem anchorUnique {as : List Artifact} {s t : Instant} (hs : Anchored as s)
    (ht : Anchored as t) : s = t := by
  obtain ⟨⟨a, ha, rfl⟩, top⟩ := hs
  obtain ⟨⟨b, hb, rfl⟩, top'⟩ := ht
  exact Instant.le_antisymm (top' a ha) (top b hb)

theorem anchorIff {as : List Artifact} {anchor : Instant} :
    anchor? as = some anchor ↔ Anchored as anchor := by
  cases as with
  | nil => simp [anchor?, Anchored]
  | cons a as =>
    have whole : Anchored (a :: as) (as.foldl (fun t b => Instant.latest t b.created) a.created) := by
      obtain ⟨source, above, all⟩ := foldLatest a.created as
      refine ⟨?_, ?_⟩
      · rcases source with same | ⟨b, hb, same⟩
        · exact ⟨a, List.mem_cons_self, same.symm⟩
        · exact ⟨b, List.mem_cons_of_mem _ hb, same⟩
      · intro b hb
        rcases List.mem_cons.mp hb with rfl | hb
        · exact above
        · exact all b hb
    simp only [anchor?, Option.some.injEq]
    constructor
    · intro same
      exact same ▸ whole
    · exact anchorUnique whole

theorem anchorSome {as : List Artifact} {a : Artifact} (member : a ∈ as) :
    ∃ b ∈ as, anchor? as = some b.created ∧ Anchored as b.created := by
  cases as with
  | nil => simp at member
  | cons b bs =>
    have anchored := anchorIff.mp (rfl : anchor? (b :: bs) = some _)
    obtain ⟨c, hc, same⟩ := anchored.1
    rw [← same] at anchored
    exact ⟨c, hc, anchorIff.mpr anchored, anchored⟩

/-- The backup `a` at a place of the list is the newest whose time is `inside`, and the earliest of the
equally new ones. -/
structure Leads (as : List Artifact) (inside : Instant → Prop) (position : Nat) (a : Artifact) : Prop where
  found : as[position]? = some a
  own : inside a.created
  newest : ∀ b ∈ as, inside b.created → b.created ≤ a.created
  earliest : ∀ (j : Nat) (b : Artifact), as[j]? = some b → b.created = a.created → position ≤ j

variable {as : List Artifact} {inside : Instant → Prop} {position : Nat} {a : Artifact}

theorem leadsUnique {k : Nat} {b : Artifact} (ha : Leads as inside position a) (hb : Leads as inside k b) :
    position = k ∧ a = b := by
  have memA := List.mem_of_getElem? ha.found
  have memB := List.mem_of_getElem? hb.found
  have same : a.created = b.created :=
    Instant.le_antisymm (hb.newest a memA ha.own) (ha.newest b memB hb.own)
  have place : position = k :=
    Nat.le_antisymm (ha.earliest k b hb.found same.symm) (hb.earliest position a ha.found same)
  subst place
  exact ⟨rfl, Option.some.inj (ha.found.symm.trans hb.found)⟩

theorem leadsSome (member : a ∈ as) (own : inside a.created) : ∃ position b, Leads as inside position b := by
  classical
  have chosen : a ∈ as.filter fun b => inside b.created := List.mem_filter.mpr ⟨member, decide_eq_true own⟩
  obtain ⟨b, hb, _, _, top⟩ := anchorSome chosen
  obtain ⟨memB, ownB⟩ := List.mem_filter.mp hb
  -- the first place that holds the newest time
  let place := as.findIdx fun c => c.created = b.created
  have within : place < as.length :=
    List.findIdx_lt_length_of_exists ⟨b, memB, decide_eq_true rfl⟩
  have time : as[place].created = b.created := of_decide_eq_true (List.findIdx_getElem (w := within))
  refine ⟨place, as[place], List.getElem?_eq_getElem within, time ▸ of_decide_eq_true ownB, ?_, ?_⟩
  · intro c hc ownC
    exact time ▸ top c (List.mem_filter.mpr ⟨hc, decide_eq_true ownC⟩)
  · intro j c found same
    by_contra before
    obtain ⟨_, rfl⟩ := List.getElem?_eq_some_iff.mp found
    exact of_decide_eq_false (List.not_of_lt_findIdx (Nat.not_le.mp before)) (same.trans time)

theorem leadsIff : (∃ position, Leads as inside position a) ↔
    inside a.created ∧ (∀ b ∈ as, inside b.created → b.created ≤ a.created) ∧
      (as.filter fun b => b.created = a.created).head? = some a := by
  rw [List.head?_filter, List.find?_eq_some_iff_getElem]
  constructor
  · intro h
    obtain ⟨position, leads⟩ := h
    obtain ⟨within, found⟩ := List.getElem?_eq_some_iff.mp leads.found
    refine ⟨leads.own, leads.newest, by simp, position, within, found, fun j before => ?_⟩
    have early : ¬ as[j].created = a.created := fun same =>
      Nat.not_le.mpr before (leads.earliest j _ (List.getElem?_eq_getElem _) same)
    simpa using early
  · intro h
    obtain ⟨own, newest, _, position, within, found, before⟩ := h
    refine ⟨position, List.getElem?_eq_some_iff.mpr ⟨within, found⟩, own, newest, fun j b other same => ?_⟩
    by_contra early
    obtain ⟨_, rfl⟩ := List.getElem?_eq_some_iff.mp other
    have apart := before j (Nat.not_le.mp early)
    simp [same] at apart

theorem leadsCongr {inside' : Instant → Prop} (same : ∀ b ∈ as, inside b.created ↔ inside' b.created)
    (leads : Leads as inside position a) : Leads as inside' position a := by
  have member := List.mem_of_getElem? leads.found
  exact ⟨leads.found, (same a member).mp leads.own,
    fun b hb own => leads.newest b hb ((same b hb).mpr own), leads.earliest⟩

end BackupRotation.Artifact
