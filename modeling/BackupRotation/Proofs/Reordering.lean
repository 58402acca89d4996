import BackupRotation.Proofs.Verdicts
/-! Lists that hold the same backups of each time in the same order, whatever stands between them. A decision
tells them apart only by the order in which it reports, and for the newest few not even by that. Without two
backups of one time every reordering of a list is such a list. -/
namespace BackupRotation

namespace Artifact

def AlikeByTime (us vs : List Artifact) : Prop :=
  ∀ t, us.filter (fun a => a.created = t) = vs.filter fun a => a.created = t

section Alike
variable {us vs : List Artifact} (alike : AlikeByTime us vs)
include alike

theorem newestFirstAlike : newestFirst us = newestFirst vs := by
  refine sortedTied (newestFirstSorted us) (newestFirstSorted vs) fun t => ?_
  rw [newestFirstTied, newestFirstTied]
  exact alike t

theorem anchorAlike : anchor? us = anchor? vs := by
  refine Option.ext fun anchor => ?_
  rw [anchorIff, anchorIff]
  simp only [Anchored, membersTied alike]

theorem winsAlike {anchor : Instant} {t : Tier} {i : Nat} {a : Artifact} :
    (∃ position, Slot.Wins us anchor t i position a) ↔ ∃ position, Slot.Wins vs anchor t i position a := by
  simp only [Slot.winsIff, leadsIff, alike a.created, membersTied alike]

end Alike

theorem alikeOfPerm {us vs : List Artifact} (times : (us.map Artifact.created).Nodup) (perm : vs.Perm us) :
    AlikeByTime us vs := by
  intro t
  have part : ((us.filter fun a => a.created = t).map Artifact.created).Nodup :=
    (List.filter_sublist.map Artifact.created).nodup times
  have same := perm.filter fun a => a.created = t
  -- two backups of the time `t` would be of one time
  match held : us.filter fun a => a.created = t with
  | [] =>
    rw [held] at same ⊢
    exact same.eq_nil.symm
  | [a] =>
    rw [held] at same ⊢
    exact (List.perm_singleton.mp same).symm
  | a :: b :: rest =>
    have ofTime : ∀ c ∈ a :: b :: rest, c.created = t := by
      intro c member
      rw [← held] at member
      simpa using (List.mem_filter.mp member).2
    rw [held] at part
    simp [ofTime] at part

end Artifact

namespace Decision
open Artifact

section Alike
variable {us vs : List Artifact} (alike : AlikeByTime us vs) (distinct : us.Nodup) (distinct' : vs.Nodup)
include alike distinct distinct'

theorem reasonsAlike (p : Policy) {a : Artifact} (member : a ∈ us) : reasonsOf us p a = reasonsOf vs p a := by
  cases p with
  | none => rfl
  | simple count => simp only [reasonsOf, newestFirstAlike alike]
  | smart d w m y =>
    simp only [reasonsOf, anchorAlike alike]
    cases anchor? vs with
    | none => rfl
    | some anchor =>
      refine slotReasonsCongr fun t count => Slot.wonCongr fun i _ => ?_
      rw [Slot.winsAt distinct member, Slot.winsAt distinct' ((membersTied alike).mp member)]
      exact winsAlike alike

end Alike

section Reordered
variable {as bs : List Artifact} (distinct : (as.map Artifact.id).Nodup)
  (times : (as.map Artifact.created).Nodup) (perm : bs.Perm as)
include distinct times perm

theorem explainReordered (p : Policy) : (explain bs p).Perm (explain as p) := by
  have distinct' : (bs.map Artifact.id).Nodup := (perm.map Artifact.id).nodup_iff.mpr distinct
  have reasons : ∀ a ∈ as, reasonsOf as p a = reasonsOf bs p a :=
    fun a member => reasonsAlike (alikeOfPerm times perm) distinct.of_map distinct'.of_map p member
  rw [explainMap, explainMap, firstsOfNodup distinct, firstsOfNodup distinct']
  refine (perm.map _).trans (List.Perm.of_eq (List.map_congr_left fun a member => ?_))
  rw [reasons a member]

theorem simpleReordered (count : UInt32) : evaluate bs (.simple count) = evaluate as (.simple count) := by
  have distinct' : (bs.map Artifact.id).Nodup := (perm.map Artifact.id).nodup_iff.mpr distinct
  have sorted : newestFirst bs = newestFirst as := (newestFirstAlike (alikeOfPerm times perm)).symm
  refine congrArg₂ Partition.mk ?_ ?_
  · exact (keepDistinct distinct').trans (sorted ▸ (keepDistinct distinct).symm)
  · exact (deleteDistinct distinct').trans (sorted ▸ (deleteDistinct distinct).symm)

/-- Without two backups of one name or of one time the order of the list decides nothing: each backup gets its
verdict wherever it stands, and the newest few are even reported in the same order. -/
theorem reorderedSame (p : Policy) :
    (explain bs p).Perm (explain as p) ∧
      (evaluate bs p).keep.Perm (evaluate as p).keep ∧
      (evaluate bs p).delete.Perm (evaluate as p).delete ∧
      ∀ count, evaluate bs (.simple count) = evaluate as (.simple count) := by
  have verdicts := explainReordered distinct times perm p
  have presented : (present p (explain bs p)).Perm (present p (explain as p)) :=
    (presentPerm p _).trans (verdicts.trans (presentPerm p _).symm)
  obtain ⟨keep, delete⟩ := partitionPerm presented
  exact ⟨verdicts, keep, delete, simpleReordered distinct times perm⟩

end Reordered

theorem reorderedSameLeap :
    let a : Artifact := ⟨"a", 1, ⟨86399, 1500000000, by decide⟩⟩
    let b : Artifact := ⟨"b", 2, ⟨86399, 500000000, by decide⟩⟩
    let c : Artifact := ⟨"c", 3, ⟨0, 0, by decide⟩⟩
    let as := [a, b, c]
    let bs := [c, a, b]
    (as.map Artifact.id).Nodup ∧ (as.map Artifact.created).Nodup ∧ bs.Perm as ∧
      (explain bs (.smart 2 0 0 0)).Perm (explain as (.smart 2 0 0 0)) ∧
      (evaluate bs (.simple 2)) = evaluate as (.simple 2) := by
  intro a b c as bs
  have distinct : (as.map Artifact.id).Nodup := by decide
  have times : (as.map Artifact.created).Nodup := by decide
  have perm : bs.Perm as := by decide
  obtain ⟨verdicts, _, _, ranked⟩ := reorderedSame distinct times perm (.smart 2 0 0 0)
  exact ⟨distinct, times, perm, verdicts, ranked 2⟩

end Decision
end BackupRotation
