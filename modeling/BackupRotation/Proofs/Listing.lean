import BackupRotation.BackupDirectory
import BackupRotation.World
/-! What listing a directory comes to, as a function of the volume: the files behind its entries, up to
the first entry that cannot be looked at. Apart from the answer a listing leaves only events. -/
namespace BackupRotation

/-- The program answers `r` and leaves the files `v`; all else that it leaves is events. -/
def Program.Leaves {α : Type} (p : Program α) (w : World) (r : α) (v : Volume) : Prop :=
  ∃ es, p.run w = (r, { w with volume := v, events := w.events ++ es })

namespace Program
variable {α β : Type} {w : World} {v : Volume}

theorem leavesPure (a : α) : (pure a : Program α).Leaves w a w.volume :=
  ⟨[], by simp [run_pure]⟩

theorem leavesBind {p : Program α} {f : α → Program β} {a : α} {b : β} {v' : Volume}
    (first : p.Leaves w a v)
    (rest : ∀ es, (f a).Leaves { w with volume := v, events := w.events ++ es } b v') :
    (p >>= f).Leaves w b v' := by
  obtain ⟨es, h⟩ := first
  obtain ⟨fs, k⟩ := rest es
  exact ⟨es ++ fs, by simp [run_bind, h, k]⟩

theorem leavesEnd {p : Program α} {a : α} (leaves : p.Leaves w a v) :
    (p.run w).1 = a ∧ (p.run w).2.volume = v ∧ (p.run w).2.here = w.here := by
  obtain ⟨es, ran⟩ := leaves
  rw [ran]
  exact ⟨rfl, rfl, rfl⟩

theorem leavesTell (e : Event) : (tell e).Leaves w () w.volume := ⟨[e], rfl⟩

theorem leavesTellAll (es : List Event) : (tellAll es).Leaves w () w.volume := by
  induction es generalizing w with
  | nil => exact leavesPure ()
  | cons e es ih => exact leavesBind (leavesTell e) fun _ => ih

theorem leavesStatus (path : String) :
    (status path).Leaves w (w.volume.status w.here path) w.volume :=
  ⟨[], by rw [List.append_nil]; rfl⟩

theorem leavesEntries (path : String) :
    (entries path).Leaves w (w.volume.entries w.here path) w.volume :=
  ⟨[], by rw [List.append_nil]; rfl⟩

end Program

namespace BackupDirectory

def look (v : Volume) (here : Location) (dir : String) :
    Octets → Except StorageError (Option Artifact)
  | .raw _ => .ok none
  | .text fileName =>
    if BackupName.isSidecar fileName then .ok none
    else
      let path := Path.join dir fileName
      (ofStatus path fileName (v.status here path)).1

def lookAll (v : Volume) (here : Location) (dir : String) :
    List Octets → Except StorageError (List Artifact)
  | [] => .ok []
  | entry :: entries =>
    match look v here dir entry with
    | .error e => .error e
    | .ok found =>
      match lookAll v here dir entries with
      | .error e => .error e
      | .ok more => .ok (found.toList ++ more)

def listing (v : Volume) (here : Location) (dir : String) : Except StorageError (List Artifact) :=
  match v.entries here dir with
  | .error e => .error (.inaccessible dir e)
  | .ok entries => (lookAll v here dir entries).map inOrder

def shown (v : Volume) (here : Location) (dir : String) (entry : Octets) : Option Artifact :=
  match look v here dir entry with
  | .ok found => found
  | .error _ => none

section Entries
variable {v : Volume} {here : Location} {dir : String}

theorem lookAllIff {entries : List Octets} {as : List Artifact} :
    lookAll v here dir entries = .ok as ↔
      (∀ entry ∈ entries, ∃ found, look v here dir entry = .ok found) ∧
        as = entries.filterMap (shown v here dir) := by
  induction entries generalizing as with
  | nil => simp [lookAll, eq_comm]
  | cons entry entries ih =>
    simp only [lookAll, List.forall_mem_cons, List.filterMap_cons, shown]
    cases h : look v here dir entry with
    | error e => simp
    | ok found =>
      simp only [Except.ok.injEq, exists_eq', true_and]
      cases k : lookAll v here dir entries with
      | error e =>
        simp only [reduceCtorEq, false_iff, not_and]
        intro all
        have none := ih.mpr ⟨all, rfl⟩
        simp [k] at none
      | ok more =>
        obtain ⟨all, rfl⟩ := ih.mp k
        refine Iff.trans ?_ (and_iff_right all).symm
        cases found with
        | none => simpa using eq_comm
        | some a => simpa using eq_comm

theorem lookSome {entry : Octets} {a : Artifact} (h : look v here dir entry = .ok (some a)) :
    entry = .text a.id ∧ BackupName.isSidecar a.id = false ∧
      ∃ size modified, v.status here (Path.join dir a.id) = .ok (.file size modified) := by
  cases entry with
  | raw bytes => simp [look] at h
  | text fileName =>
    simp only [look] at h
    split at h
    · simp at h
    · rename_i backup
      cases found : v.status here (Path.join dir fileName) with
      | error e =>
        rw [found] at h
        cases e <;> simp [ofStatus] at h
      | ok s =>
        rw [found] at h
        cases s with
        | directory => simp [ofStatus] at h
        | file size modified =>
          simp only [ofStatus, Except.ok.injEq, Option.some.injEq] at h
          subst h
          exact ⟨rfl, by simpa using backup, size, modified, found⟩

theorem shownIff {entry : Octets} {a : Artifact} :
    shown v here dir entry = some a ↔ look v here dir entry = .ok (some a) := by
  unfold shown
  cases look v here dir entry <;> simp

theorem shownName {entry : Octets} {a : Artifact} (found : shown v here dir entry = some a) :
    entry = .text a.id :=
  (lookSome (shownIff.mp found)).1

end Entries

theorem listingOf {v : Volume} {here : Location} {dir : String} {entries : List Octets}
    {as : List Artifact} (found : v.entries here dir = .ok entries)
    (looked : lookAll v here dir entries = .ok as) : listing v here dir = .ok (inOrder as) := by
  simp only [listing, found, looked, Except.map]

theorem listingSorted {v : Volume} {here : Location} {dir : String} {entries : List Octets}
    {as : List Artifact} (found : v.entries here dir = .ok entries)
    (looked : lookAll v here dir entries = .ok as) (sorted : as.Pairwise fun a b => a.id ≤ b.id) :
    listing v here dir = .ok as := by
  have same : inOrder as = as := List.mergeSort_of_pairwise (by simpa using sorted)
  rw [listingOf found looked, same]

section Runs
open Program
variable {w : World} {dir : String}

theorem inspectLeaves (entry : Octets) :
    (inspect dir entry).Leaves w (look w.volume w.here dir entry) w.volume := by
  cases entry with
  | raw bytes => exact leavesBind (leavesTell _) fun _ => leavesPure _
  | text fileName =>
    simp only [inspect, look]
    split
    · exact leavesBind (leavesTell _) fun _ => leavesPure _
    · refine leavesBind (leavesStatus _) fun es => ?_
      exact leavesBind (leavesTellAll _) fun _ => leavesPure _

theorem inspectAllLeaves (entries : List Octets) :
    (inspectAll dir entries).Leaves w (lookAll w.volume w.here dir entries) w.volume := by
  induction entries generalizing w with
  | nil => exact leavesPure _
  | cons entry entries ih =>
    refine leavesBind (inspectLeaves entry) fun es => ?_
    simp only [lookAll]
    cases h : look w.volume w.here dir entry with
    | error e => exact leavesPure _
    | ok found =>
      refine leavesBind ih fun fs => ?_
      simp only
      cases lookAll w.volume w.here dir entries with
      | error e => exact leavesPure _
      | ok more => exact leavesPure _

theorem listLeaves : (list dir).Leaves w (listing w.volume w.here dir) w.volume := by
  refine leavesBind (leavesEntries dir) fun es => ?_
  simp only [listing]
  cases w.volume.entries w.here dir with
  | error e => exact leavesPure _
  | ok entries =>
    refine leavesBind (inspectAllLeaves entries) fun fs => ?_
    simp only
    cases lookAll w.volume w.here dir entries with
    | error e => exact leavesPure _
    | ok found => exact leavesBind (leavesTell _) fun _ => leavesPure _

theorem listEnd (w : World) (dir : String) : ((list dir).run w).1 = listing w.volume w.here dir ∧
    ((list dir).run w).2.volume = w.volume ∧ ((list dir).run w).2.here = w.here :=
  leavesEnd listLeaves

theorem listAnswers {w : World} {dir : String} {entries : List Octets} {as : List Artifact}
    (found : w.volume.entries w.here dir = .ok entries)
    (looked : lookAll w.volume w.here dir entries = .ok as)
    (sorted : as.Pairwise fun a b => a.id ≤ b.id) : ((list dir).run w).1 = .ok as := by
  rw [(listEnd w dir).1]
  exact listingSorted found looked sorted

end Runs
end BackupDirectory
end BackupRotation
