import BackupRotation.Proofs.Reasons
/-! Deletions that are carried out in part, or not at all, leave the decision as it was: whatever part
of the backups to delete is gone, the rest is decided on as before. -/
namespace BackupRotation.Decision
open Artifact

def without (gone : Set String) [DecidablePred (· ∈ gone)] (as : List Artifact) : List Artifact :=
  as.filter fun a => a.id ∉ gone

theorem memWithout {gone : Set String} [DecidablePred (· ∈ gone)] {as : List Artifact}
    {a : Artifact} : a ∈ without gone as ↔ a ∈ as ∧ a.id ∉ gone := by
  simp [without]

theorem withoutSublist {gone : Set String} [DecidablePred (· ∈ gone)] {as : List Artifact} :
    (without gone as).Sublist as := List.filter_sublist

section Rank
variable {r : List Artifact} {n : Nat} {stays : Artifact → Bool} {a : Artifact}
  (first : ∀ b ∈ r.take n, stays b = true)
include first

theorem filterKeepsFirst : r.filter stays = r.take n ++ (r.drop n).filter stays := by
  rw [← List.take_append_drop n r, List.filter_append, List.take_append_drop,
    List.filter_eq_self.mpr first]

theorem rankBelow (member : a ∈ r) (below : r.idxOf a < n) :
    (r.filter stays).idxOf a = r.idxOf a := by
  have front : a ∈ r.take n := (List.mem_take_iff_idxOf_lt member).mpr below
  rw [filterKeepsFirst first, List.idxOf_append_of_mem front]
  conv_rhs => rw [← List.take_append_drop n r]
  rw [List.idxOf_append_of_mem front]

theorem rankBeyond (member : a ∈ r) (beyond : n ≤ r.idxOf a) : n ≤ (r.filter stays).idxOf a := by
  have back : a ∉ r.take n := by
    intro front
    have := (List.mem_take_iff_idxOf_lt member).mp front
    omega
  have long : r.idxOf a < r.length := List.idxOf_lt_length_of_mem member
  rw [filterKeepsFirst first, List.idxOf_append_of_notMem back, List.length_take]
  omega

end Rank

variable {us : List Artifact} {stays : Artifact → Bool}

theorem anchoredFilter {p : Policy} {anchor : Instant} {t : Tier} (enabled : p.countOf t ≠ 0)
    (stay : ∀ t i position a, i < (p.countOf t).toNat → Slot.Wins us anchor t i position a →
      stays a = true)
    (anchored : Anchored us anchor) : Anchored (us.filter stays) anchor := by
  -- the newest backup shares window 0 with its winner, which stays, so ages do not change
  obtain ⟨⟨a, member, rfl⟩, top⟩ := anchored
  have count : 0 < (p.countOf t).toNat := by
    refine Nat.pos_of_ne_zero fun none => enabled ?_
    exact UInt32.toNat_inj.mp none
  obtain ⟨position, w, wins⟩ := Slot.winsOfCovered member (t.coversSelf a.created)
  have inside : w ∈ us := List.mem_of_getElem? wins.found
  have newest : w.created = a.created :=
    Instant.le_antisymm (top w inside) (wins.newest a member (t.coversSelf a.created))
  refine ⟨⟨w, List.mem_filter.mpr ⟨inside, stay t 0 position w count wins⟩, newest⟩, ?_⟩
  intro b hb
  exact top b (List.mem_filter.mp hb).1

theorem reasonsIdle {d w m y : UInt32} (idle : ∀ t, (Policy.smart d w m y).countOf t = 0)
    {vs : List Artifact} {a : Artifact} : reasonsOf vs (.smart d w m y) a = [] := by
  have tiers : (Policy.smart d w m y).enabledTiers = [] := by
    simp [Policy.enabledTiers, idle]
  simp only [reasonsOf, slotReasonsWon, tiers]
  split <;> rfl

theorem smartReasonsFilter (distinct : us.Nodup) {d w m y : UInt32}
    (kept : ∀ a ∈ us, reasonsOf us (.smart d w m y) a ≠ [] → stays a = true)
    {a : Artifact} (member : a ∈ us) (staysA : stays a = true) :
    reasonsOf (us.filter stays) (.smart d w m y) a = reasonsOf us (.smart d w m y) a := by
  obtain ⟨newest, _, known, anchored⟩ := anchorSome member
  have stay : ∀ t i position b, i < ((Policy.smart d w m y).countOf t).toNat →
      Slot.Wins us newest.created t i position b → stays b = true := by
    intro t i position b below wins
    have inside : b ∈ us := List.mem_of_getElem? wins.found
    have given : Reason.slot t i ∈ reasonsOf us (.smart d w m y) b :=
      (memReasonsSmart distinct inside).mpr ⟨t, i, rfl, below, _, position, anchored, wins⟩
    exact kept b inside (List.ne_nil_of_mem given)
  by_cases idle : ∀ t, (Policy.smart d w m y).countOf t = 0
  · rw [reasonsIdle idle, reasonsIdle idle]
  · obtain ⟨t, enabled⟩ := not_forall.mp idle
    have same := anchorIff.mpr (anchoredFilter enabled stay anchored)
    simp only [reasonsOf, known, same, slotReasonsWon]
    refine List.flatMap_congr fun tier enabled => ?_
    obtain ⟨count, _⟩ := (Policy.enabledTiersIff _ tier.1 tier.2).mp enabled
    rw [Slot.wonFilter distinct stays (count ▸ stay tier.1) member staysA]

theorem simpleReasonsFilter {count : UInt32}
    (kept : ∀ a ∈ us, reasonsOf us (.simple count) a ≠ [] → stays a = true)
    {a : Artifact} (member : a ∈ us) :
    reasonsOf (us.filter stays) (.simple count) a = reasonsOf us (.simple count) a := by
  have first : ∀ b ∈ (newestFirst us).take count.toNat, stays b = true := by
    intro b hb
    have inside := List.mem_of_mem_take hb
    have rank := (List.mem_take_iff_idxOf_lt inside).mp hb
    exact kept b (memNewestFirst.mp inside) (by simp [reasonsOf, rank])
  have ranked := memNewestFirst.mpr member
  simp only [reasonsOf, newestFirstFilter]
  by_cases below : (newestFirst us).idxOf a < count.toNat
  · rw [rankBelow first ranked below]
  · have beyond := rankBeyond first ranked (Nat.not_lt.mp below)
    rw [if_neg below, if_neg (Nat.not_lt.mpr beyond)]

theorem reasonsFilter (distinct : us.Nodup) {p : Policy}
    (kept : ∀ a ∈ us, reasonsOf us p a ≠ [] → stays a = true)
    {a : Artifact} (member : a ∈ us) (staysA : stays a = true) :
    reasonsOf (us.filter stays) p a = reasonsOf us p a := by
  cases p with
  | none => rfl
  | simple count => exact simpleReasonsFilter kept member
  | smart d w m y => exact smartReasonsFilter distinct kept member staysA

section Gone
variable {as : List Artifact} {p : Policy} {gone : Set String} [DecidablePred (· ∈ gone)]

theorem firstsWithout : firsts (without gone as) = without gone (firsts as) :=
  firstsFilter (fun id => decide (id ∉ gone)) as

theorem orderWithout : order p (firsts (without gone as)) = without gone (order p (firsts as)) := by
  rw [firstsWithout]
  exact orderFilter p _ _

omit [DecidablePred (· ∈ gone)] in
theorem keptOfReasons (kept : ∀ a ∈ (evaluate as p).keep, a.id ∉ gone) :
    ∀ a ∈ firsts as, reasonsOf (firsts as) p a ≠ [] → a.id ∉ gone :=
  fun a member some => kept a (memKeep.mpr ⟨member, some⟩)

variable (kept : ∀ a ∈ (evaluate as p).keep, a.id ∉ gone)
include kept

theorem reasonsWithout {a : Artifact} (member : a ∈ firsts as) (stays : a.id ∉ gone) :
    reasonsOf (firsts (without gone as)) p a = reasonsOf (firsts as) p a := by
  rw [firstsWithout]
  exact reasonsFilter (firstsNodup as)
    (fun b hb some => decide_eq_true (keptOfReasons kept b hb some)) member (decide_eq_true stays)

theorem explainWithout : explain (without gone as) p =
    (explain as p).filter fun v => v.artifact.id ∉ gone := by
  rw [explainMap, explainMap, List.filter_map]
  have same : firsts (without gone as) = (firsts as).filter fun a => a.id ∉ gone := firstsWithout
  refine (List.map_congr_left ?_).trans (congrArg _ same)
  intro a member
  obtain ⟨inside, stays⟩ := List.mem_filter.mp (same ▸ member)
  rw [reasonsWithout kept inside (of_decide_eq_true stays)]

theorem keepWithout : (evaluate (without gone as) p).keep = (evaluate as p).keep := by
  rw [evaluateFilter, evaluateFilter]
  simp only
  rw [orderWithout]
  refine List.filter_filter.trans ?_
  refine List.filter_congr fun a member => ?_
  have inside := memOrder.mp member
  by_cases stays : a.id ∉ gone
  · rw [reasonsWithout kept inside stays, decide_eq_true stays, Bool.and_true]
  · have none : reasonsOf (firsts as) p a = [] := by
      by_contra some
      exact stays (keptOfReasons kept a inside some)
    rw [none, decide_eq_false stays, Bool.and_false]
    rfl

theorem deleteWithout : (evaluate (without gone as) p).delete =
    without gone (evaluate as p).delete := by
  rw [evaluateFilter, evaluateFilter]
  simp only
  rw [orderWithout]
  refine List.filter_filter.trans (Eq.trans ?_ List.filter_filter.symm)
  refine List.filter_congr fun a member => ?_
  by_cases stays : a.id ∉ gone
  · rw [reasonsWithout kept (memOrder.mp member) stays, Bool.and_comm]
  · rw [decide_eq_false stays, Bool.and_false, Bool.false_and]

end Gone

/-- The names that are gone were none of the kept ones. Then all that is left is kept or deleted as
before, in the same order and for the same reasons. -/
theorem evaluateWithout (as : List Artifact) (p : Policy) (gone : Set String)
    [DecidablePred (· ∈ gone)] (kept : ∀ a ∈ (evaluate as p).keep, a.id ∉ gone) :
    (evaluate (without gone as) p).keep = (evaluate as p).keep ∧
      (explain (without gone as) p).filter Verdict.keep = (explain as p).filter Verdict.keep ∧
      (evaluate (without gone as) p).delete = without gone (evaluate as p).delete := by
  refine ⟨keepWithout kept, ?_, deleteWithout kept⟩
  rw [explainWithout kept, List.filter_filter]
  refine List.filter_congr fun v member => ?_
  rw [explainMap] at member
  obtain ⟨a, inside, rfl⟩ := List.mem_map.mp member
  by_cases some : reasonsOf (firsts as) p a = []
  · simp [verdict, some]
  · have stays := keptOfReasons kept a inside some
    simp [verdict, stays]

theorem evaluateWithoutLoser :
    let as : List Artifact := [⟨"a", 1, ⟨90000, 0, by decide⟩⟩, ⟨"b", 2, ⟨90000, 0, by decide⟩⟩,
      ⟨"c", 3, ⟨0, 0, by decide⟩⟩, ⟨"d", 4, ⟨600, 0, by decide⟩⟩]
    let p := Policy.smart 2 1 0 0
    (∀ a ∈ (evaluate as p).keep, a.id ∉ ({"c"} : Set String)) ∧
      (evaluate (without {"c"} as) p).keep = (evaluate as p).keep ∧
      (explain (without {"c"} as) p).filter Verdict.keep = (explain as p).filter Verdict.keep ∧
      (evaluate (without {"c"} as) p).delete = without {"c"} (evaluate as p).delete := by
  intro as p
  have kept : ∀ a ∈ (evaluate as p).keep, a.id ∉ ({"c"} : Set String) := by
    simp only [Set.mem_singleton_iff]
    decide +kernel
  exact ⟨kept, evaluateWithout as p {"c"} kept⟩

end BackupRotation.Decision
