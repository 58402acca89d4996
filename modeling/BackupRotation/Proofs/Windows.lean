import BackupRotation.Proofs.Leaders
import BackupRotation.Slot
import Mathlib.Data.List.Sort
/-! What fills the windows of a tier: of the backups whose age lies in a window the newest, and of
those the earliest in the list. -/
namespace BackupRotation

/-- The age of a backup, measured from the anchor, lies in window `i` of the tier. -/
def Tier.Covers (t : Tier) (anchor : Instant) (i : Nat) (created : Instant) : Prop :=
  let age := Instant.elapsedMillis created anchor
  0 ≤ age ∧ i * t.widthMillis ≤ age ∧ age < (i + 1) * t.widthMillis

theorem Tier.windowCovers {t : Tier} {anchor created : Instant} {i : Nat} :
    t.window? anchor created = some i ↔ t.Covers anchor i created := by
  have width : (0 : Int) < t.widthMillis := by exact_mod_cast t.widthPositive
  simp only [window?, Covers]
  generalize Instant.elapsedMillis created anchor = age
  split
  · rename_i negative
    simp only [reduceCtorEq, false_iff]
    omega
  · rename_i nonnegative
    obtain ⟨n, rfl⟩ := Int.eq_ofNat_of_zero_le (Int.not_lt.mp nonnegative)
    have lower : i * t.widthMillis ≤ n ↔ (i : Int) * t.widthMillis ≤ n := by norm_cast
    have upper : n < (i + 1) * t.widthMillis ↔ (n : Int) < (i + 1) * t.widthMillis := by norm_cast
    rw [Int.toNat_natCast, Option.some.injEq, Nat.div_eq_iff t.widthPositive, ← lower, ← upper]
    constructor
    · intro h
      refine ⟨by omega, h.1, ?_⟩
      have := t.widthPositive
      rw [Nat.add_mul]
      omega
    · intro given
      obtain ⟨_, h, k⟩ := given
      rw [Nat.add_mul] at k
      omega

theorem Tier.coversUnique {t : Tier} {anchor created : Instant} {i j : Nat}
    (hi : t.Covers anchor i created) (hj : t.Covers anchor j created) : i = j :=
  Option.some.inj ((windowCovers.mpr hi).symm.trans (windowCovers.mpr hj))

theorem Tier.coversSelf (t : Tier) (anchor : Instant) : t.Covers anchor 0 anchor := by
  have width := t.widthPositive
  simp only [Covers, Instant.elapsedMillis, Instant.elapsed_self]
  exact ⟨by decide, by simp, by simpa using width⟩

namespace Slot

/-- The backup `a` at a place of the list is the newest whose age lies in window `i`, and the earliest
of the equally new ones. -/
structure Wins (as : List Artifact) (anchor : Instant) (t : Tier) (i position : Nat)
    (a : Artifact) : Prop where
  found : as[position]? = some a
  covered : t.Covers anchor i a.created
  newest : ∀ b ∈ as, t.Covers anchor i b.created → b.created ≤ a.created
  earliest : ∀ (j : Nat) (b : Artifact), as[j]? = some b → t.Covers anchor i b.created →
    b.created = a.created → position ≤ j

theorem winsIff {as : List Artifact} {anchor : Instant} {t : Tier} {i position : Nat} {a : Artifact} :
    Wins as anchor t i position a ↔ Artifact.Leads as (t.Covers anchor i) position a := by
  constructor
  · intro wins
    exact ⟨wins.found, wins.covered, wins.newest,
      fun j b found same => wins.earliest j b found (same ▸ wins.covered) same⟩
  · intro leads
    exact ⟨leads.found, leads.own, leads.newest, fun j b found _ same => leads.earliest j b found same⟩

theorem winsUnique {as : List Artifact} {anchor : Instant} {t : Tier} {i j k : Nat} {a b : Artifact}
    (ha : Wins as anchor t i j a) (hb : Wins as anchor t i k b) : j = k ∧ a = b :=
  Artifact.leadsUnique (winsIff.mp ha) (winsIff.mp hb)

theorem foldNewer (c : Candidate) (cs : List Candidate)
    (rising : (c :: cs).Pairwise fun a b => a.position < b.position) :
    cs.foldl newer c ∈ c :: cs ∧ ∀ d ∈ c :: cs, d.created ≤ (cs.foldl newer c).created ∧
      (d.created = (cs.foldl newer c).created → (cs.foldl newer c).position ≤ d.position) := by
  induction cs generalizing c with
  | nil => simp [Instant.le_refl]
  | cons e cs ih =>
    obtain ⟨first, tail⟩ := List.pairwise_cons.mp rising
    obtain ⟨second, rest⟩ := List.pairwise_cons.mp tail
    rw [List.foldl_cons]
    by_cases later : c.created < e.created
    · have pick : newer c e = e := by simp [newer, later]
      obtain ⟨inside, best⟩ := ih e tail
      rw [pick]
      refine ⟨List.mem_cons_of_mem _ inside, ?_⟩
      intro d hd
      rcases List.mem_cons.mp hd with rfl | hd
      · have top := (best e List.mem_cons_self).1
        have strict : d.created < (cs.foldl newer e).created :=
          Instant.ltOfNotLe fun back => Instant.le_trans top back later
        exact ⟨fun back => Instant.lt_irrefl _ (Instant.lt_trans strict back),
          fun same => absurd strict (same ▸ Instant.lt_irrefl _)⟩
      · exact best d hd
    · have pick : newer c e = c := by simp [newer, later]
      have skip : (c :: cs).Pairwise fun a b => a.position < b.position :=
        List.pairwise_cons.mpr ⟨fun d hd => first d (List.mem_cons_of_mem _ hd), rest⟩
      obtain ⟨inside, best⟩ := ih c skip
      rw [pick]
      refine ⟨?_, ?_⟩
      · rcases List.mem_cons.mp inside with same | inside
        · exact List.mem_cons.mpr (.inl same)
        · exact List.mem_cons_of_mem _ (List.mem_cons_of_mem _ inside)
      · intro d hd
        have top := best c List.mem_cons_self
        rcases List.mem_cons.mp hd with rfl | hd
        · exact top
        · rcases List.mem_cons.mp hd with rfl | hd
          · -- `e` is no newer than `c`, so it can tie with the winner only if `c` does too
            refine ⟨Instant.le_trans later top.1, ?_⟩
            intro same
            have tie : c.created = (cs.foldl newer c).created :=
              Instant.le_antisymm top.1 (same ▸ later)
            exact Nat.le_trans (top.2 tie) (Nat.le_of_lt (first d List.mem_cons_self))
          · exact best d (List.mem_cons_of_mem _ hd)

theorem memCandidates {as : List Artifact} {anchor : Instant} {t : Tier} {count : Nat}
    {c : Candidate} : c ∈ candidates as anchor t count ↔
      c.index < count ∧ ∃ a, as[c.position]? = some a ∧ t.Covers anchor c.index a.created ∧
        c.created = a.created := by
  obtain ⟨i, k, created⟩ := c
  simp only [candidates, List.mem_filterMap, Prod.exists, List.mem_zipIdx_iff_getElem?, candidate?]
  constructor
  · intro given
    obtain ⟨a, j, found, h⟩ := given
    cases hw : t.window? anchor a.created with
    | none => simp [hw] at h
    | some index =>
      simp only [hw] at h
      split at h
      · rename_i below
        cases h
        exact ⟨below, a, found, Tier.windowCovers.mp hw, rfl⟩
      · contradiction
  · intro h
    obtain ⟨below, a, found, covered, rfl⟩ := h
    exact ⟨a, k, found, by simp [Tier.windowCovers.mpr covered, below]⟩

theorem candidatesRise (as : List Artifact) (anchor : Instant) (t : Tier) (count : Nat) :
    (candidates as anchor t count).Pairwise fun a b => a.position < b.position := by
  have rising : (as.zipIdx).Pairwise fun a b => a.2 < b.2 := by
    have indices : (as.zipIdx.map Prod.snd).Pairwise (· < ·) := by
      rw [List.zipIdx_map_snd]
      exact List.pairwise_lt_range'
    exact List.pairwise_map.mp indices
  have place : ∀ a position c, candidate? anchor t count a position = some c →
      c.position = position := by
    intro a position c h
    unfold candidate? at h
    split at h
    · split at h
      · cases h; rfl
      · contradiction
    · contradiction
  refine List.pairwise_filterMap.mpr (rising.imp ?_)
  intro x y less c hc d hd
  obtain ⟨a, j⟩ := x
  obtain ⟨b, k⟩ := y
  rw [place a j c hc, place b k d hd]
  exact less

theorem winnerIff {as : List Artifact} {anchor : Instant} {t : Tier} {count i : Nat}
    {c : Candidate} : winner? (candidates as anchor t count) i = some c ↔
      c.index = i ∧ c ∈ candidates as anchor t count ∧
        ∀ d ∈ candidates as anchor t count, d.index = i → d.created ≤ c.created ∧
          (d.created = c.created → c.position ≤ d.position) := by
  have sound : ∀ {e}, winner? (candidates as anchor t count) i = some e →
      e.index = i ∧ e ∈ candidates as anchor t count ∧
        ∀ d ∈ candidates as anchor t count, d.index = i → d.created ≤ e.created ∧
          (d.created = e.created → e.position ≤ d.position) := by
    intro e h
    unfold winner? at h
    split at h
    · contradiction
    · rename_i first rest whole
      cases h
      have rising := whole ▸ (candidatesRise as anchor t count).filter fun c : Candidate => c.index = i
      obtain ⟨inside, best⟩ := foldNewer first rest rising
      have within := List.mem_filter.mp (whole ▸ inside)
      refine ⟨of_decide_eq_true within.2, within.1, ?_⟩
      intro d hd index
      exact best d (whole ▸ List.mem_filter.mpr ⟨hd, decide_eq_true index⟩)
  constructor
  · exact sound
  · intro h
    obtain ⟨index, member, best⟩ := h
    have within : c ∈ (candidates as anchor t count).filter fun c => c.index = i :=
      List.mem_filter.mpr ⟨member, decide_eq_true index⟩
    cases h : winner? (candidates as anchor t count) i with
    | none =>
      unfold winner? at h
      split at h
      · rename_i nothing
        simp [nothing] at within
      · contradiction
    | some e =>
      obtain ⟨indexE, memberE, bestE⟩ := sound h
      have same : c.created = e.created :=
        Instant.le_antisymm (bestE c member index).1 (best e memberE indexE).1
      have place : c.position = e.position :=
        Nat.le_antisymm ((best e memberE indexE).2 same.symm) ((bestE c member index).2 same)
      cases c
      cases e
      simp_all

theorem memFill {as : List Artifact} {anchor : Instant} {t : Tier} {count : Nat} {s : Slot} :
    s ∈ fill as anchor t count ↔
      s.index < count ∧ ∃ a, Wins as anchor t s.index s.position a := by
  have unfolded : s ∈ fill as anchor t count ↔
      ∃ c, winner? (candidates as anchor t count) s.index = some c ∧ c.position = s.position := by
    simp only [fill, List.mem_filterMap, Option.map_eq_some_iff, mem_indices]
    constructor
    · intro h
      obtain ⟨i, _, c, hc, rfl⟩ := h
      exact ⟨c, hc, rfl⟩
    · intro h
      obtain ⟨c, hc, place⟩ := h
      obtain ⟨index, member, _⟩ := winnerIff.mp hc
      exact ⟨s.index, ⟨c, member, index⟩, c, hc, by cases s; simp_all⟩
  rw [unfolded]
  constructor
  · intro h
    obtain ⟨c, hc, place⟩ := h
    obtain ⟨index, member, best⟩ := winnerIff.mp hc
    obtain ⟨below, a, found, covered, time⟩ := memCandidates.mp member
    rw [index] at below covered
    have rival : ∀ (j : Nat) (b : Artifact), as[j]? = some b →
        t.Covers anchor s.index b.created → b.created ≤ a.created ∧
          (b.created = a.created → s.position ≤ j) := by
      intro j b hb cov
      have candidate : (⟨s.index, j, b.created⟩ : Candidate) ∈ candidates as anchor t count :=
        memCandidates.mpr ⟨below, b, hb, cov, rfl⟩
      have := best _ candidate rfl
      rwa [time, place] at this
    refine ⟨below, a, place ▸ found, covered, ?_, fun j b hb cov => (rival j b hb cov).2⟩
    intro b hb cov
    obtain ⟨j, found⟩ := List.mem_iff_getElem?.mp hb
    exact (rival j b found cov).1
  · intro h
    obtain ⟨below, a, wins⟩ := h
    refine ⟨⟨s.index, s.position, a.created⟩, winnerIff.mpr ⟨rfl, ?_, ?_⟩, rfl⟩
    · exact memCandidates.mpr ⟨below, a, wins.found, wins.covered, rfl⟩
    · intro d hd index
      obtain ⟨_, b, found, covered, time⟩ := memCandidates.mp hd
      rw [index] at covered
      rw [time]
      exact ⟨wins.newest b (List.mem_of_getElem? found) covered,
        wins.earliest d.position b found covered⟩

theorem winsOfCovered {as : List Artifact} {anchor : Instant} {t : Tier} {i : Nat} {b : Artifact}
    (member : b ∈ as) (covered : t.Covers anchor i b.created) :
    ∃ position a, Wins as anchor t i position a := by
  obtain ⟨position, a, leads⟩ := Artifact.leadsSome member covered
  exact ⟨position, a, winsIff.mpr leads⟩

theorem insertIndexRises {i : Nat} {js : List Nat} (rising : js.Pairwise (· < ·)) :
    (insertIndex i js).Pairwise (· < ·) := by
  induction js with
  | nil => simp [insertIndex]
  | cons j js ih =>
    obtain ⟨first, rest⟩ := List.pairwise_cons.mp rising
    simp only [insertIndex]
    split
    · rename_i less
      refine List.pairwise_cons.mpr ⟨?_, rising⟩
      intro k hk
      rcases List.mem_cons.mp hk with rfl | hk
      · exact less
      · exact Nat.lt_trans less (first k hk)
    · split
      · exact rising
      · refine List.pairwise_cons.mpr ⟨?_, ih rest⟩
        intro k hk
        rcases mem_insertIndex.mp hk with rfl | hk
        · omega
        · exact first k hk

theorem indicesRise (cs : List Candidate) : (indices cs).Pairwise (· < ·) := by
  induction cs with
  | nil => exact List.Pairwise.nil
  | cons c cs ih => exact insertIndexRises ih

theorem fillRises (as : List Artifact) (anchor : Instant) (t : Tier) (count : Nat) :
    (fill as anchor t count).Pairwise fun r s => r.index < s.index := by
  refine List.pairwise_filterMap.mpr ((indicesRise _).imp ?_)
  intro i j less r hr s hs
  obtain ⟨c, _, rfl⟩ := Option.map_eq_some_iff.mp hr
  obtain ⟨d, _, rfl⟩ := Option.map_eq_some_iff.mp hs
  exact less

def won (as : List Artifact) (anchor : Instant) (t : Tier) (count position : Nat) : List Nat :=
  ((fill as anchor t count).filter fun s => s.position = position).map Slot.index

theorem memWon {as : List Artifact} {anchor : Instant} {t : Tier} {count position i : Nat} :
    i ∈ won as anchor t count position ↔ i < count ∧ ∃ a, Wins as anchor t i position a := by
  simp only [won, List.mem_map, List.mem_filter, decide_eq_true_eq]
  constructor
  · intro h
    obtain ⟨s, ⟨filled, rfl⟩, rfl⟩ := h
    exact memFill.mp filled
  · intro h
    exact ⟨⟨i, position⟩, ⟨memFill.mpr h, rfl⟩, rfl⟩

theorem wonRises (as : List Artifact) (anchor : Instant) (t : Tier) (count position : Nat) :
    (won as anchor t count position).Pairwise (· < ·) :=
  List.pairwise_map.mpr ((fillRises as anchor t count).filter _)

theorem wonCongr {as bs : List Artifact} {anchor anchor' : Instant} {t : Tier} {count k k' : Nat}
    (same : ∀ i < count, (∃ a, Wins as anchor t i k a) ↔ ∃ b, Wins bs anchor' t i k' b) :
    won as anchor t count k = won bs anchor' t count k' := by
  refine List.Pairwise.eq_of_mem_iff (wonRises ..) (wonRises ..) fun i => ?_
  rw [memWon, memWon]
  exact and_congr_right (same i)

theorem wonBelow {as : List Artifact} {anchor : Instant} {t : Tier} {m n position : Nat} (fewer : m ≤ n) :
    won as anchor t m position = (won as anchor t n position).filter fun i => i < m := by
  refine List.Pairwise.eq_of_mem_iff (wonRises ..) ((wonRises ..).filter _) fun i => ?_
  rw [List.mem_filter, memWon, memWon, decide_eq_true_iff]
  constructor
  · intro h
    exact ⟨⟨Nat.lt_of_lt_of_le h.1 fewer, h.2⟩, h.1⟩
  · intro h
    exact ⟨h.2, h.1.2⟩

theorem wonOnce (as : List Artifact) (anchor : Instant) (t : Tier) (count position : Nat) :
    (won as anchor t count position).length ≤ 1 := by
  have same : ∀ i ∈ won as anchor t count position, ∀ j ∈ won as anchor t count position, i = j := by
    intro i hi j hj
    obtain ⟨_, a, ha⟩ := memWon.mp hi
    obtain ⟨_, b, hb⟩ := memWon.mp hj
    obtain rfl : a = b := Option.some.inj (ha.found.symm.trans hb.found)
    exact Tier.coversUnique ha.covered hb.covered
  have rises := wonRises as anchor t count position
  match hw : won as anchor t count position with
  | [] => simp
  | [_] => simp
  | i :: j :: rest =>
    rw [hw] at rises same
    have less := (List.pairwise_cons.mp rises).1 j List.mem_cons_self
    have equal := same i List.mem_cons_self j (List.mem_cons_of_mem _ List.mem_cons_self)
    omega

theorem idxOfFilter {α : Type} [DecidableEq α] (p : α → Bool) {xs : List α} {a b : α}
    (ha : p a = true) (hb : p b = true) (order : xs.idxOf a ≤ xs.idxOf b) :
    (xs.filter p).idxOf a ≤ (xs.filter p).idxOf b := by
  induction xs with
  | nil => simp
  | cons x xs ih =>
    by_cases ax : x = a
    · subst ax
      simp [ha]
    · have bx : x ≠ b := by
        intro same
        subst same
        simp [List.idxOf_cons_ne _ ax] at order
      rw [List.idxOf_cons_ne _ ax, List.idxOf_cons_ne _ bx] at order
      have rest := ih (Nat.le_of_succ_le_succ order)
      by_cases hx : p x = true
      · rw [List.filter_cons_of_pos hx, List.idxOf_cons_ne _ ax, List.idxOf_cons_ne _ bx]
        exact Nat.succ_le_succ rest
      · rw [List.filter_cons_of_neg hx]
        exact rest

theorem winsPlace {as : List Artifact} (distinct : as.Nodup) {anchor : Instant} {t : Tier}
    {i position : Nat} {a : Artifact} (wins : Wins as anchor t i position a) :
    position = as.idxOf a := by
  have found := wins.found
  obtain ⟨inside, rfl⟩ := List.getElem?_eq_some_iff.mp found
  exact (distinct.idxOf_getElem position inside).symm

theorem winsAt {as : List Artifact} (distinct : as.Nodup) {anchor : Instant} {t : Tier} {i : Nat}
    {a : Artifact} (member : a ∈ as) :
    (∃ b, Wins as anchor t i (as.idxOf a) b) ↔ ∃ position, Wins as anchor t i position a := by
  constructor
  · intro h
    obtain ⟨b, wins⟩ := h
    obtain rfl : b = a := Option.some.inj (wins.found.symm.trans (List.getElem?_idxOf member))
    exact ⟨_, wins⟩
  · intro h
    obtain ⟨position, wins⟩ := h
    exact ⟨a, winsPlace distinct wins ▸ wins⟩

theorem winsFilter {as : List Artifact} (distinct : as.Nodup) (p : Artifact → Bool)
    {anchor : Instant} {t : Tier} {i position : Nat} {a : Artifact}
    (wins : Wins as anchor t i position a) (stays : p a = true) :
    Wins (as.filter p) anchor t i ((as.filter p).idxOf a) a := by
  have member := List.mem_filter.mpr ⟨List.mem_of_getElem? wins.found, stays⟩
  refine ⟨List.getElem?_idxOf member, wins.covered, ?_, ?_⟩
  · intro b hb
    exact wins.newest b (List.mem_filter.mp hb).1
  · intro j b found covered same
    have memB := List.mem_filter.mp (List.mem_of_getElem? found)
    obtain ⟨inside, rfl⟩ := List.getElem?_eq_some_iff.mp found
    have order : as.idxOf a ≤ as.idxOf (as.filter p)[j] := by
      rw [← winsPlace distinct wins]
      exact wins.earliest _ _ (List.getElem?_idxOf memB.1) covered same
    have := idxOfFilter p stays memB.2 order
    rwa [(distinct.filter p).idxOf_getElem j inside] at this

theorem wonFilter {as : List Artifact} (distinct : as.Nodup) (p : Artifact → Bool)
    {anchor : Instant} {t : Tier} {count : Nat}
    (stay : ∀ i position a, i < count → Wins as anchor t i position a → p a = true)
    {a : Artifact} (member : a ∈ as) (stays : p a = true) :
    won (as.filter p) anchor t count ((as.filter p).idxOf a) =
      won as anchor t count (as.idxOf a) := by
  have inside := List.mem_filter.mpr ⟨member, stays⟩
  refine wonCongr fun i below => ?_
  rw [winsAt (distinct.filter p) inside, winsAt distinct member]
  constructor
  · intro h
    obtain ⟨_, wins⟩ := h
    -- whoever wins the window in the whole list is still there, so it is `a` itself
    obtain ⟨position, w, whole⟩ := winsOfCovered member wins.covered
    have left := winsFilter distinct p whole (stay i position w below whole)
    obtain ⟨_, rfl⟩ := winsUnique wins left
    exact ⟨position, whole⟩
  · intro h
    obtain ⟨_, wins⟩ := h
    exact ⟨_, winsFilter distinct p wins stays⟩

end Slot
end BackupRotation
