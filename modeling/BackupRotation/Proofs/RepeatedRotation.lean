import BackupRotation.Proofs.Ages
import BackupRotation.Proofs.PartialDeletion
import Mathlib.Data.List.Induction
/-! Rotating after each arrival, always on what the runs before left, beside one decision on all that
arrived. A window that slides over two backups keeps the newer only, so the runs may lose a backup
that the one decision has in the next window; the two agree where no window ever holds two. -/
namespace BackupRotation

namespace Decision
open Artifact

/-- Names are new and times rise from each backup to the next. -/
structure Arrivals (as : List Artifact) : Prop where
  distinct : (as.map Artifact.id).Nodup
  rising : as.Pairwise fun a b => a.created < b.created

def rotated (p : Policy) (as : List Artifact) : List Artifact :=
  as.foldl (fun survivors a => (evaluate (survivors ++ [a]) p).keep) []

/-- Whatever backup the ages run from, each backup lies in a window that no newer one lies in. -/
def Apart (t : Tier) (as : List Artifact) : Prop :=
  ∀ a ∈ as, ∀ b ∈ as, ∀ c ∈ as, a.created < b.created → b.created ≤ c.created →
    ∃ i, t.Covers c.created i a.created ∧ ¬ t.Covers c.created i b.created

theorem rotatedSnoc (p : Policy) (xs : List Artifact) (z : Artifact) :
    rotated p (xs ++ [z]) = (evaluate (rotated p xs ++ [z]) p).keep := by
  simp only [rotated, List.foldl_append, List.foldl_cons, List.foldl_nil]

namespace Arrivals
variable {as xs : List Artifact} {z : Artifact}

theorem sublist (arrivals : Arrivals as) (part : xs.Sublist as) : Arrivals xs :=
  ⟨arrivals.distinct.sublist (part.map _), arrivals.rising.sublist part⟩

theorem firstsSelf (arrivals : Arrivals as) : firsts as = as := firstsOfNodup arrivals.distinct

theorem nodup (arrivals : Arrivals as) : as.Nodup := arrivals.distinct.of_map

theorem older (arrivals : Arrivals (xs ++ [z])) {a : Artifact} (member : a ∈ xs) :
    a.created < z.created :=
  (List.pairwise_append.mp arrivals.rising).2.2 a member z (List.mem_singleton_self z)

theorem anchored (arrivals : Arrivals (xs ++ [z])) : Anchored (xs ++ [z]) z.created := by
  refine ⟨⟨z, by simp, rfl⟩, ?_⟩
  intro a member
  rcases List.mem_append.mp member with before | last
  · exact Instant.leOfLt (arrivals.older before)
  · rw [List.mem_singleton.mp last]
    exact Instant.le_refl _

theorem sameTime (arrivals : Arrivals as) {a b : Artifact} (ha : a ∈ as) (hb : b ∈ as)
    (same : a.created = b.created) : a = b := by
  obtain ⟨i, hi, rfl⟩ := List.getElem_of_mem ha
  obtain ⟨j, hj, rfl⟩ := List.getElem_of_mem hb
  have order := List.pairwise_iff_getElem.mp arrivals.rising
  rcases Nat.lt_trichotomy i j with less | rfl | more
  · exact absurd (same ▸ order i j hi hj less) (Instant.lt_irrefl _)
  · rfl
  · exact absurd (same ▸ order j i hj hi more) (Instant.lt_irrefl _)

end Arrivals

section Runs
variable {as xs rest : List Artifact} {a z : Artifact} {d w m y : UInt32} {t : Tier} {i : Nat}

theorem givesNewest (arrivals : Arrivals (xs ++ [z])) :
    Gives (xs ++ [z]) (.smart d w m y) a (.slot t i) ↔
      i < ((Policy.smart d w m y).countOf t).toNat ∧ a ∈ xs ++ [z] ∧
        t.Covers z.created i a.created ∧
        ∀ b ∈ xs ++ [z], t.Covers z.created i b.created → b.created ≤ a.created := by
  rw [givesSlot, arrivals.firstsSelf]
  constructor
  · intro h
    obtain ⟨below, anchor, position, anchored, wins⟩ := h
    obtain rfl := anchorUnique anchored arrivals.anchored
    exact ⟨below, List.mem_of_getElem? wins.found, wins.covered, wins.newest⟩
  · intro h
    obtain ⟨below, member, covered, newest⟩ := h
    obtain ⟨position, b, wins⟩ := Slot.winsOfCovered member covered
    have inside := List.mem_of_getElem? wins.found
    have same : a.created = b.created :=
      Instant.le_antisymm (wins.newest a member covered) (newest b inside wins.covered)
    obtain rfl := arrivals.sameTime member inside same
    exact ⟨below, z.created, position, arrivals.anchored, wins⟩

theorem keepSublist (arrivals : Arrivals as) :
    (evaluate as (.smart d w m y)).keep.Sublist as := by
  rw [evaluateFilter, arrivals.firstsSelf]
  exact List.filter_sublist

theorem rotatedSublist (arrivals : Arrivals as) : (rotated (.smart d w m y) as).Sublist as := by
  induction as using List.reverseRecOn with
  | nil => exact List.Sublist.refl _
  | append_singleton xs z ih =>
    have left := (ih (arrivals.sublist (List.sublist_append_left ..))).append_right [z]
    rw [rotatedSnoc]
    exact (keepSublist (arrivals.sublist left)).trans left

theorem keepOfPart (arrivals : Arrivals as) (part : rest.Sublist as) {p : Policy}
    (whole : ∀ a ∈ (evaluate as p).keep, a ∈ rest) : (evaluate rest p).keep = (evaluate as p).keep := by
  classical
  -- what is missing is a set of names, none of them kept, so a partial deletion leads from `as` to `rest`
  have names : ∀ a ∈ as, a.id ∉ {id | id ∉ rest.map Artifact.id} ↔ a ∈ rest := by
    intro a member
    simp only [Set.mem_ofPred_eq, not_not]
    constructor
    · intro named
      obtain ⟨b, hb, same⟩ := List.mem_map.mp named
      rwa [← List.inj_on_of_nodup_map arrivals.distinct (part.subset hb) member same]
    · exact List.mem_map_of_mem
  have cut : without {id | id ∉ rest.map Artifact.id} as = rest := by
    have inside : (without {id | id ∉ rest.map Artifact.id} as).Perm rest := by
      refine (List.perm_ext_iff_of_nodup (arrivals.nodup.sublist withoutSublist)
        (arrivals.nodup.sublist part)).mpr fun a => ?_
      rw [memWithout]
      constructor
      · intro h
        exact (names a h.1).mp h.2
      · intro h
        exact ⟨part.subset h, (names a (part.subset h)).mpr h⟩
    exact (arrivals.nodup.perm_iff_eq_of_sublist withoutSublist part).mp inside
  have kept : ∀ a ∈ (evaluate as p).keep, a.id ∉ {id | id ∉ rest.map Artifact.id} := by
    intro a member
    exact (names a ((firstsSublist as).subset (memKeep.mp member).1)).mpr (whole a member)
  conv_lhs => rw [← cut]
  exact keepWithout kept

theorem restSublist (arrivals : Arrivals (xs ++ [z])) :
    (rotated (.smart d w m y) xs ++ [z]).Sublist (xs ++ [z]) :=
  (rotatedSublist (arrivals.sublist (List.sublist_append_left ..))).append_right [z]

theorem newestSurvives (arrivals : Arrivals (xs ++ [z]))
    (some : 0 < ((Policy.smart d w m y).countOf t).toNat) :
    z ∈ rotated (.smart d w m y) (xs ++ [z]) := by
  have left := arrivals.sublist (restSublist (d := d) (w := w) (m := m) (y := y) arrivals)
  rw [rotatedSnoc, memKeepSmart]
  exact ⟨t, 0, (givesNewest left).mpr
    ⟨some, by simp, t.coversSelf _, fun b hb _ => left.anchored.2 b hb⟩⟩

theorem apartRise (apart : Apart t as) {c : Artifact} (hz : z ∈ as) (hc : c ∈ as)
    (order : z.created ≤ c.created) {j : Nat} (hj : t.Covers z.created j a.created)
    (hi : t.Covers c.created i a.created) : j ≤ i := by
  by_cases later : z.created < c.created
  · obtain ⟨k, window, other⟩ := apart z hz c hc c hc later (Instant.le_refl _)
    have beyond : k ≠ 0 := by
      intro self
      subst self
      exact other (t.coversSelf _)
    exact Tier.coversRise hj hi
      (Instant.elapsedGrows (Int.le_trans t.widthLong (Tier.coversApart window beyond)))
  · have same : z.created = c.created := Instant.le_antisymm order later
    rw [same] at hj
    exact Nat.le_of_eq (Tier.coversUnique hj hi)

theorem survives (arrivals : Arrivals as) (apart : Apart t as) {c : Artifact} (hc : c ∈ as)
    (last : ∀ b ∈ as, b.created ≤ c.created) (covered : t.Covers c.created i a.created)
    (below : i < ((Policy.smart d w m y).countOf t).toNat) :
    xs <+: as → a ∈ xs → a ∈ rotated (.smart d w m y) xs := by
  -- by the arrivals: `a` is alone in its window each time, and the window it ends in bounds those before
  induction xs using List.reverseRecOn with
  | nil => simp
  | append_singleton xs z ih =>
    intro start member
    have inside : ∀ b ∈ xs ++ [z], b ∈ as := fun b hb => start.subset hb
    have arrived := arrivals.sublist start.sublist
    rcases List.mem_append.mp member with before | new
    · have older := arrived.older before
      have left := restSublist (d := d) (w := w) (m := m) (y := y) arrived
      have hz := inside z (by simp)
      obtain ⟨j, window, _⟩ :=
        apart a (inside a member) z hz z hz older (Instant.le_refl _)
      rw [rotatedSnoc, memKeepSmart]
      refine ⟨t, j, (givesNewest (arrived.sublist left)).mpr ⟨?_, ?_, window, ?_⟩⟩
      · exact Nat.lt_of_le_of_lt (apartRise apart hz hc (last z hz) window covered) below
      · exact List.mem_append_left _ (ih ((List.prefix_append xs [z]).trans start) before)
      · intro b hb rival newer
        obtain ⟨k, same, free⟩ := apart a (inside a member) b (inside b (left.subset hb)) z hz
          newer (arrived.anchored.2 b (left.subset hb))
        rw [Tier.coversUnique same window] at free
        exact free rival
    · rw [List.mem_singleton.mp new]
      exact newestSurvives arrived (Nat.lt_of_le_of_lt (Nat.zero_le i) below)

theorem slotSurvives (arrivals : Arrivals as) (given : Gives as (.smart d w m y) a (.slot t i))
    (alone : i = 0 ∨ Apart t as) : a ∈ rotated (.smart d w m y) as := by
  rcases List.eq_nil_or_concat as with rfl | ⟨xs, z, rfl⟩
  · exact absurd (givesIff.mp given).1 (by simp [firsts, firstsAfter])
  · rw [List.concat_eq_append] at *
    obtain ⟨below, member, covered, newest⟩ := (givesNewest arrivals).mp given
    have hz : z ∈ xs ++ [z] := by simp
    rcases alone with rfl | apart
    · have same : a.created = z.created :=
        Instant.le_antisymm (arrivals.anchored.2 a member) (newest z hz (t.coversSelf _))
      rw [arrivals.sameTime member hz same]
      exact newestSurvives arrivals below
    · exact survives arrivals apart hz arrivals.anchored.2 covered below (List.prefix_refl _) member

theorem keepMember (arrivals : Arrivals as) (kept : a ∈ (evaluate as (.smart d w m y)).keep) :
    a ∈ as := (keepSublist arrivals).subset kept

theorem sameIffLossless (arrivals : Arrivals as) :
    rotated (.smart d w m y) as = (evaluate as (.smart d w m y)).keep ↔
      ∀ a ∈ (evaluate as (.smart d w m y)).keep, a ∈ rotated (.smart d w m y) as := by
  constructor
  · intro same a kept
    rwa [same]
  · intro lossless
    rcases List.eq_nil_or_concat as with rfl | ⟨xs, z, rfl⟩
    · rfl
    · rw [List.concat_eq_append] at *
      have left := restSublist (d := d) (w := w) (m := m) (y := y) arrivals
      rw [rotatedSnoc]
      refine keepOfPart arrivals left fun a kept => ?_
      have survivor := lossless a kept
      rw [rotatedSnoc] at survivor
      exact keepMember (arrivals.sublist left) survivor

theorem rotatedFalls (zs : List Artifact) (arrivals : Arrivals (xs ++ zs)) (member : a ∈ xs)
    (survivor : a ∈ rotated (.smart d w m y) (xs ++ zs)) : a ∈ rotated (.smart d w m y) xs := by
  induction zs using List.reverseRecOn with
  | nil => rwa [List.append_nil] at survivor
  | append_singleton zs z ih =>
    rw [← List.append_assoc] at arrivals survivor
    have older := arrivals.older (List.mem_append_left zs member)
    rw [rotatedSnoc] at survivor
    rcases List.mem_append.mp (keepMember (arrivals.sublist (restSublist arrivals)) survivor)
      with before | new
    · exact ih (arrivals.sublist (List.sublist_append_left ..)) before
    · rw [List.mem_singleton.mp new] at older
      exact absurd older (Instant.lt_irrefl _)

theorem sameThroughoutIff (arrivals : Arrivals as) :
    (∀ xs, xs <+: as → rotated (.smart d w m y) xs = (evaluate xs (.smart d w m y)).keep) ↔
      ∀ xs ys, xs <+: ys → ys <+: as → ∀ a ∈ xs, a ∈ (evaluate ys (.smart d w m y)).keep →
        a ∈ (evaluate xs (.smart d w m y)).keep := by
  constructor
  · intro same xs ys front start a member kept
    obtain ⟨zs, rfl⟩ := front
    rw [← same _ start] at kept
    rw [← same xs ((List.prefix_append xs zs).trans start)]
    exact rotatedFalls zs (arrivals.sublist start.sublist) member kept
  · intro stays xs
    -- the run before left the keep list of `xs`, and all that is kept now and came before is in it
    induction xs using List.reverseRecOn with
    | nil => exact fun _ => rfl
    | append_singleton xs z ih =>
      intro start
      have front := List.prefix_append xs [z]
      have arrived := arrivals.sublist start.sublist
      have left := restSublist (d := d) (w := w) (m := m) (y := y) arrived
      rw [rotatedSnoc]
      refine keepOfPart arrived left fun a kept => ?_
      rw [ih (front.trans start)]
      rcases List.mem_append.mp (keepMember arrived kept) with before | new
      · exact List.mem_append_left _ (stays xs _ front start a before kept)
      · exact List.mem_append_right _ new

end Runs
section Spaced
variable {as : List Artifact} {t : Tier}

theorem apartOfSpaced (whole : ∀ a ∈ as, ¬ a.created.IsLeap)
    (spaced : as.Pairwise fun a b => (t.widthMillis : Int) ≤ Instant.elapsedMillis a.created b.created) :
    Apart t as := by
  have width : (0 : Int) < t.widthMillis := by exact_mod_cast t.widthPositive
  intro a ha b hb c hc less order
  have forth := Instant.elapsedPositive (whole a ha) (whole b hb) less
  have rest := Instant.elapsedNonnegative (whole b hb) (whole c hc) order
  have sum := Instant.elapsedAdd (whole a ha) (whole b hb) (whole c hc)
  have gap : t.widthMillis * 1000000 ≤ Instant.elapsed a.created b.created := by
    obtain ⟨i, hi, rfl⟩ := List.getElem_of_mem ha
    obtain ⟨j, hj, rfl⟩ := List.getElem_of_mem hb
    have pairs := List.pairwise_iff_getElem.mp spaced
    rcases Nat.lt_trichotomy i j with before | rfl | after
    · exact (Instant.millisReach width).mp (pairs i j hi hj before)
    · exact absurd less (Instant.lt_irrefl _)
    · have back := (Instant.millisReach width).mp (pairs j i hj hi after)
      have around := Instant.elapsedAdd (whole _ ha) (whole _ hb) (whole _ ha)
      rw [Instant.elapsed_self] at around
      omega
  have ages : Instant.elapsedMillis b.created c.created + t.widthMillis ≤
      Instant.elapsedMillis a.created c.created := by
    simp only [Instant.elapsedMillis]
    rw [Int.tdiv_eq_ediv_of_nonneg rest, Int.tdiv_eq_ediv_of_nonneg (by omega)]
    omega
  have young : 0 ≤ Instant.elapsedMillis b.created c.created := Int.tdiv_nonneg rest (by decide)
  obtain ⟨i, window⟩ := t.coversOfNonnegative (by omega : 0 ≤ Instant.elapsedMillis a.created c.created)
  refine ⟨i, window, fun shared => ?_⟩
  have near := window.2.2
  have far := shared.2.1
  rw [Int.add_mul, Int.one_mul] at near
  omega

end Spaced

theorem rotatedSame {as : List Artifact} (arrivals : Arrivals as) (d w m y : UInt32) :
    let p := Policy.smart d w m y
    ((∀ t, 1 < (p.countOf t).toNat → Apart t as) → rotated p as = (evaluate as p).keep) ∧
    (∀ a t i, Gives as p a (.slot t i) → (i = 0 ∨ Apart t as) → a ∈ rotated p as) ∧
    (rotated p as = (evaluate as p).keep ↔
      ∀ a ∈ (evaluate as p).keep, a ∈ rotated p as) ∧
    ((∀ xs, xs <+: as → rotated p xs = (evaluate xs p).keep) ↔
      ∀ xs ys, xs <+: ys → ys <+: as → ∀ a ∈ xs, a ∈ (evaluate ys p).keep →
        a ∈ (evaluate xs p).keep) := by
  intro p
  refine ⟨?_, fun a t i => slotSurvives arrivals, sameIffLossless arrivals,
    sameThroughoutIff arrivals⟩
  intro apart
  refine (sameIffLossless arrivals).mpr fun a kept => ?_
  obtain ⟨t, i, given⟩ := memKeepSmart.mp kept
  refine slotSurvives arrivals given ?_
  by_cases first : i = 0
  · exact .inl first
  · have below : i < (p.countOf t).toNat := (givesSlot.mp given).1
    exact .inr (apart t (by omega))

theorem rotatedSameDaily :
    let as : List Artifact := [⟨"a", 1, ⟨0, 0, by decide⟩⟩, ⟨"b", 2, ⟨86400, 0, by decide⟩⟩,
      ⟨"c", 3, ⟨172800, 0, by decide⟩⟩]
    let p := Policy.smart 2 0 0 0
    Arrivals as ∧ (∀ t, 1 < (p.countOf t).toNat → Apart t as) ∧
      rotated p as = (evaluate as p).keep ∧ (evaluate as p).keep.map Artifact.id = ["b", "c"] := by
  intro as p
  have arrivals : Arrivals as := ⟨by decide, by decide⟩
  have apart : ∀ t, 1 < (p.countOf t).toNat → Apart t as := by
    intro t more
    cases t with
    | daily => exact apartOfSpaced (by decide) (by decide)
    | weekly => exact absurd more (by decide)
    | monthly => exact absurd more (by decide)
    | yearly => exact absurd more (by decide)
  exact ⟨arrivals, apart, (rotatedSame arrivals 2 0 0 0).1 apart, by decide +kernel⟩

/-- Of two backups within a day the runs keep the newer only, though a day later the older one alone
would be in the second window. -/
theorem rotatedLosesEarlier :
    let as : List Artifact := [⟨"a", 1, ⟨0, 0, by decide⟩⟩, ⟨"b", 2, ⟨43200, 0, by decide⟩⟩,
      ⟨"c", 3, ⟨86400, 0, by decide⟩⟩]
    let p := Policy.smart 2 0 0 0
    Arrivals as ∧ (evaluate as p).keep.map Artifact.id = ["a", "c"] ∧
      (rotated p as).map Artifact.id = ["c"] ∧ rotated p as ≠ (evaluate as p).keep := by
  intro as p
  exact ⟨⟨by decide, by decide⟩, by decide +kernel, by decide +kernel, by decide +kernel⟩

end Decision
end BackupRotation
