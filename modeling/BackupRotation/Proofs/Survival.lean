import BackupRotation.Proofs.PartialDeletion
import BackupRotation.Proofs.Removal
/-! What a pruning leaves in the list. A listed backup may be a link to another one, so deleting one can
take others away with it: those whose way leads over it, and no more. -/
namespace BackupRotation
namespace BackupDirectory
open Volume
open Program (leavesEnd)

/-- No backup to be deleted lies on the way of `a`. -/
def Spared (v : Volume) (here : Location) (dir : String) (ds : List Artifact) (a : Artifact) : Prop :=
  ∀ d ∈ ds, isFileName d.id → ∀ l, v.locate here .name (Path.join dir d.id) = .ok l →
    l ∉ v.way here (Path.join dir a.id)

section Listed
variable {v : Volume} {here directory : Location} {dir : String} {as ds : List Artifact}
  {names : List Octets}

theorem listingIff : listing v here dir = .ok as ↔
    ∃ directory, v.locate here .node dir = .ok directory ∧ v.node? directory = some .directory ∧
      (∀ entry ∈ v.names directory, ∃ found, look v here dir entry = .ok found) ∧
      as = inOrder ((v.names directory).filterMap (shown v here dir)) := by
  simp only [listing]
  cases h : v.entries here dir with
  | error e =>
    simp only [reduceCtorEq, false_iff, not_exists, not_and]
    intro directory opened isDirectory
    have found := entriesIff.mpr ⟨directory, opened, isDirectory, rfl⟩
    simp [h] at found
  | ok names =>
    obtain ⟨directory, opened, isDirectory, rfl⟩ := entriesIff.mp h
    constructor
    · intro listed
      cases k : lookAll v here dir (v.names directory) with
      | error e => simp [k, Except.map] at listed
      | ok found =>
        obtain ⟨all, rfl⟩ := lookAllIff.mp k
        simp only [k, Except.map, Except.ok.injEq] at listed
        exact ⟨directory, opened, isDirectory, all, listed.symm⟩
    · intro h
      obtain ⟨other, there, _, all, rfl⟩ := h
      obtain rfl : directory = other := Except.ok.inj (opened.symm.trans there)
      simp only [lookAllIff.mpr ⟨all, rfl⟩, Except.map]

theorem memListingIff (listed : listing v here dir = .ok as)
    (opened : v.locate here .node dir = .ok directory) {a : Artifact} :
    a ∈ as ↔ .text a.id ∈ v.names directory ∧ look v here dir (.text a.id) = .ok (some a) := by
  obtain ⟨other, there, _, _, rfl⟩ := listingIff.mp listed
  obtain rfl := Except.ok.inj (opened.symm.trans there)
  rw [inOrder, List.mem_mergeSort, List.mem_filterMap]
  constructor
  · rintro ⟨entry, inside, found⟩
    obtain rfl := shownName found
    exact ⟨inside, shownIff.mp found⟩
  · rintro ⟨inside, looked⟩
    exact ⟨.text a.id, inside, shownIff.mpr looked⟩

theorem memListing (listed : listing v here dir = .ok as) {a : Artifact} (member : a ∈ as) :
    look v here dir (.text a.id) = .ok (some a) := by
  obtain ⟨directory, opened, _⟩ := listingIff.mp listed
  exact ((memListingIff listed opened).mp member).2

variable (opened : v.locate here .node dir = .ok directory)
  (isDirectory : v.node? directory = some .directory)
include opened isDirectory

theorem listedEntry {a : Artifact} (looked : look v here dir (.text a.id) = .ok (some a))
    (bare : BareName a.id) :
    v.FileEntry directory a.id ∧ checkPath (Path.join dir a.id) = .ok () ∧
      directory ++ [.text a.id] ∈ v.way here (Path.join dir a.id) := by
  obtain ⟨_, _, size, modified, found⟩ := lookSome looked
  obtain ⟨l, data, located, file⟩ := statusFile found
  have filled := pathFilled (locateIff.mp opened).1
  obtain ⟨checked, walked⟩ := locateIff.mp located
  rw [originJoin here bare filled, routeJoin bare filled] at walked
  obtain ⟨m, first, last⟩ := walkSplit walked
  obtain rfl := walkUnique first (walkSteps opened)
  have entry := fileEntryOfWalk bare.1 isDirectory last file
  refine ⟨entry, checked, ?_⟩
  rw [way, originJoin here bare filled, routeJoin bare filled]
  exact wayName bare.1 entry.short isDirectory first

theorem listedDeletable (listed : ∀ d ∈ ds, look v here dir (.text d.id) = .ok (some d)) :
    Deletable v directory dir ds := by
  intro d member bare
  obtain ⟨entry, checked, _⟩ := listedEntry opened isDirectory (listed d member) (bareFileName bare)
  exact ⟨entry, checked⟩

theorem sparedIff (deletable : Deletable v directory dir ds) {a : Artifact} :
    Spared v here dir ds a ↔
      ∀ l ∈ v.way here (Path.join dir a.id), l ∉ places directory ds := by
  have located : ∀ d ∈ ds, isFileName d.id →
      v.locate here .name (Path.join dir d.id) = .ok (directory ++ [.text d.id]) := by
    intro d member bare
    obtain ⟨entry, checked⟩ := deletable d member bare
    have none : Deletable v directory dir [] := by
      intro e he
      cases he
    exact locatePlace opened isDirectory none (bareFileName bare) entry.short checked
  constructor
  · intro spared l onWay place
    obtain ⟨d, member, bare, rfl⟩ := memPlaces.mp place
    exact spared d member bare _ (located d member bare) onWay
  · intro aside d member bare l there onWay
    obtain rfl := Except.ok.inj ((located d member bare).symm.trans there)
    exact aside _ onWay (memPlaces.mpr ⟨d, member, bare, rfl⟩)

theorem fileSpared (deletable : Deletable v directory dir ds) {a : Artifact} (bare : BareName a.id)
    (looked : look v here dir (.text a.id) = .ok (some a)) (other : ∀ d ∈ ds, d.id ≠ a.id)
    {l : Location} {data : FileData} (place : v.locate here .name (Path.join dir a.id) = .ok l)
    (file : v.node? l = some (.file data)) : Spared v here dir ds a := by
  have filled := pathFilled (locateIff.mp opened).1
  obtain ⟨entry, checked, _⟩ := listedEntry opened isDirectory looked bare
  have none : Deletable v directory dir [] := by
    intro e he
    cases he
  have located : v.locate here .name (Path.join dir a.id) = .ok (directory ++ [.text a.id]) :=
    locatePlace opened isDirectory none bare entry.short checked
  obtain rfl := Except.ok.inj (located.symm.trans place)
  rw [sparedIff opened isDirectory deletable, way, originJoin here bare filled,
    routeJoin bare filled]
  have plain : ∀ target, v.node? (directory ++ [.text a.id]) ≠ some (.link target) := by
    intro target
    simp [file]
  intro m onWay taken
  rcases wayLast bare.1 entry.short isDirectory plain (walkSteps opened) m onWay with before | rfl
  · exact placesAside deletable isDirectory (walkSteps opened) m before taken
  · obtain ⟨d, member, _, same⟩ := memPlaces.mp taken
    have name : a.id = d.id := by simpa using same
    exact other d member name.symm

open Classical in
theorem lookClear (deletable : Deletable v directory dir ds) {entry : Octets}
    {found : Option Artifact} (looked : look v here dir entry = .ok found) :
    look (v.clear (places directory ds)) here dir entry =
      .ok (found.filter fun a => Spared v here dir ds a) := by
  have root : [] ∉ places directory ds := placesRoot
  have plain := placesPlain deletable
  cases entry with
  | raw bytes =>
    obtain rfl := Except.ok.inj looked
    rfl
  | text fileName =>
    by_cases sidecar : BackupName.isSidecar fileName
    · simp only [look, sidecar, if_true, Except.ok.injEq] at looked ⊢
      subst looked
      rfl
    · simp only [look, sidecar, Bool.false_eq_true, if_false] at looked ⊢
      have clear : (v.clear (places directory ds)).status here (Path.join dir fileName) =
          v.status here (Path.join dir fileName) ∨
            (v.clear (places directory ds)).status here (Path.join dir fileName) = .error .noEntry :=
        statusClear root plain
      cases status : v.status here (Path.join dir fileName) with
      | error e =>
        rw [status] at looked clear
        cases e with
        | noEntry =>
          obtain rfl := Except.ok.inj looked
          rw [or_self] at clear
          rw [clear]
          rfl
        | _ => simp [ofStatus] at looked
      | ok s =>
        rw [status] at looked clear
        cases s with
        | directory =>
          obtain rfl := Except.ok.inj looked
          rcases clear with same | lost
          · rw [same]
            rfl
          · rw [lost]
            rfl
        | file size modified =>
          obtain rfl := Except.ok.inj looked
          obtain ⟨l, data, located, _⟩ := statusFile status
          by_cases spared : Spared v here dir ds ⟨fileName, UInt64.ofNat size, created fileName modified⟩
          · have aside := (sparedIff opened isDirectory deletable).mp spared
            rw [statusAside root plain aside, status]
            simp [ofStatus, Option.filter_some, spared]
          · have across : ∃ l ∈ v.way here (Path.join dir fileName), l ∈ places directory ds := by
              rw [sparedIff opened isDirectory deletable] at spared
              simpa using spared
            rw [statusLost root plain (locateIff.mp located).1 across]
            simp [ofStatus, Option.filter_some, spared]

end Listed

theorem nameTrans (a b c : Artifact) (h : decide (a.id ≤ b.id) = true)
    (k : decide (b.id ≤ c.id) = true) : decide (a.id ≤ c.id) = true :=
  decide_eq_true (String.le_trans (of_decide_eq_true h) (of_decide_eq_true k))

theorem nameTotal (a b : Artifact) : (decide (a.id ≤ b.id) || decide (b.id ≤ a.id)) = true := by
  simpa using String.le_total a.id b.id

theorem inOrderFilter (p : Artifact → Bool) (as : List Artifact) :
    inOrder (as.filter p) = (inOrder as).filter p :=
  (filterMergeSort nameTrans nameTotal p as).symm

open Classical in
theorem listingClear {v : Volume} {here directory : Location} {dir : String} {as ds : List Artifact}
    (listed : listing v here dir = .ok as) (deletable : Deletable v directory dir ds)
    (opened : v.locate here .node dir = .ok directory)
    (isDirectory : v.node? directory = some .directory) :
    listing (v.clear (places directory ds)) here dir =
      .ok (as.filter fun a => Spared v here dir ds a) := by
  have root : [] ∉ places directory ds := placesRoot
  have plain := placesPlain deletable
  obtain ⟨other, there, _, all, rfl⟩ := listingIff.mp listed
  obtain rfl : directory = other := Except.ok.inj (opened.symm.trans there)
  obtain ⟨checked, walked⟩ := locateIff.mp opened
  refine listingIff.mpr ⟨directory, ?_, ?_, ?_, ?_⟩
  · rw [locateIff, walkAside root plain (placesAside deletable isDirectory walked)]
    exact ⟨checked, walked⟩
  · have stays : directory ∉ places directory ds := fun taken => plain _ taken isDirectory
    rw [nodeClear v root, if_neg stays, isDirectory]
  · intro entry left
    rw [namesClear, List.mem_filter] at left
    obtain ⟨found, looked⟩ := all entry left.1
    exact ⟨_, lookClear opened isDirectory deletable looked⟩
  · rw [namesClear, ← inOrderFilter, List.filterMap_filter, List.filter_filterMap]
    refine congrArg inOrder (List.filterMap_congr fun entry inside => ?_)
    obtain ⟨found, looked⟩ := all entry inside
    simp only [shown, looked, lookClear opened isDirectory deletable looked]
    split
    · rfl
    · rename_i gone
      cases found with
      | none => rfl
      | some a =>
        -- the entry itself is gone, and it lies on the way to the backup that it was listed as
        obtain ⟨rfl, _⟩ := lookSome looked
        have place : directory ++ [.text a.id] ∈ places directory ds := by simpa using gone
        obtain ⟨d, member, bare, same⟩ := memPlaces.mp place
        have name : a.id = d.id := by simpa using same
        have onWay := (listedEntry opened isDirectory looked (name ▸ bareFileName bare)).2.2
        have severed : ¬ Spared v here dir ds a := fun spared =>
          (sparedIff opened isDirectory deletable).mp spared _ onWay place
        simp [Option.filter_some, severed]

section Pruned
variable {w : World} {dir : String} {as : List Artifact} {p : Policy}

theorem decidedListed {a : Artifact}
    (h : a ∈ (Decision.evaluate as p).keep ∨ a ∈ (Decision.evaluate as p).delete) : a ∈ as := by
  have first : a ∈ Artifact.firsts as := by
    rcases h with kept | deleted
    · exact (Decision.memKeep.mp kept).1
    · exact (Decision.memDelete.mp deleted).1
  exact (Artifact.firstsSublist as).subset first

theorem decidedDeletable (listed : listing w.volume w.here dir = .ok as) {directory : Location}
    (opened : w.volume.locate w.here .node dir = .ok directory)
    (isDirectory : w.volume.node? directory = some .directory) :
    Deletable w.volume directory dir (Decision.evaluate as p).delete :=
  listedDeletable opened isDirectory fun _ member => memListing listed (decidedListed (.inr member))

open Classical in
theorem listPruned (listed : ((list dir).run w).1 = .ok as) :
    let decided := Decision.evaluate as p
    let pruned := ((prune dir decided.delete).run ((list dir).run w).2).2
    ((list dir).run pruned).1 =
      .ok (as.filter fun a => Spared w.volume w.here dir decided.delete a) := by
  intro decided pruned
  obtain ⟨answer, volume, start⟩ := listEnd w dir
  rw [answer] at listed
  obtain ⟨directory, opened, isDirectory, _⟩ := listingIff.mp listed
  have deletable : Deletable w.volume directory dir decided.delete :=
    decidedDeletable listed opened isDirectory
  obtain ⟨_, left, stays⟩ := leavesEnd (pruneLeaves opened isDirectory deletable volume start)
  rw [(listEnd pruned dir).1, left, stays, start]
  exact listingClear listed deletable opened isDirectory

theorem keptFileSpared (listed : ((list dir).run w).1 = .ok as) {a : Artifact}
    (kept : a ∈ (Decision.evaluate as p).keep) (bare : BareName a.id) {l : Location}
    {data : FileData} (place : w.volume.locate w.here .name (Path.join dir a.id) = .ok l)
    (file : w.volume.node? l = some (.file data)) :
    Spared w.volume w.here dir (Decision.evaluate as p).delete a := by
  rw [(listEnd w dir).1] at listed
  obtain ⟨directory, opened, isDirectory, _⟩ := listingIff.mp listed
  exact fileSpared opened isDirectory (decidedDeletable listed opened isDirectory) bare
    (memListing listed (decidedListed (.inl kept))) (fun d deleted => Decision.decidedApart kept deleted)
    place file

open Classical in
theorem prunedListsSpared (listed : ((list dir).run w).1 = .ok as) (p : Policy) :
    let decided := Decision.evaluate as p
    let pruned := ((prune dir decided.delete).run ((list dir).run w).2).2
    let spared := Spared w.volume w.here dir decided.delete
    ((list dir).run pruned).1 = .ok (as.filter fun a => spared a) ∧
      ((∀ a ∈ decided.keep, ∃ rest, ((list dir).run pruned).1 = .ok rest ∧ a ∈ rest) ↔
        ∀ a ∈ decided.keep, spared a) ∧
      ∀ a ∈ decided.keep, BareName a.id → ∀ l data,
        w.volume.locate w.here .name (Path.join dir a.id) = .ok l →
          w.volume.node? l = some (.file data) → spared a := by
  intro decided pruned spared
  have after : ((list dir).run pruned).1 = .ok (as.filter fun a => spared a) := listPruned listed
  refine ⟨after, ?_, fun a kept bare l data => keptFileSpared listed kept bare⟩
  rw [after]
  constructor
  · intro kept a member
    obtain ⟨rest, same, there⟩ := kept a member
    rw [← Except.ok.inj same] at there
    simpa using (List.mem_filter.mp there).2
  · intro kept a member
    have inside : a ∈ as := decidedListed (.inl member)
    exact ⟨_, rfl, List.mem_filter.mpr ⟨inside, by simpa using kept a member⟩⟩

end Pruned

theorem prunedListsSparedFile :
    let v : Volume := ⟨[([.text "backups"], .directory),
      ([.text "backups", .text "a"], .file ⟨.text "dump", 0, ⟨0, 0, by decide⟩⟩),
      ([.text "backups", .text "b"], .link "a")], by decide⟩
    let w : World := ⟨v, [], ⟨0, 0, by decide⟩, [], "", []⟩
    let as : List Artifact := [⟨"a", 4, ⟨0, 0, by decide⟩⟩, ⟨"b", 4, ⟨0, 0, by decide⟩⟩]
    let decided := Decision.evaluate as (.smart 1 0 0 0)
    let pruned := ((prune "backups" decided.delete).run ((list "backups").run w).2).2
    ((list "backups").run w).1 = .ok as ∧ decided.keep.map Artifact.id = ["a"] ∧
      ∀ a ∈ decided.keep, ∃ rest, ((list "backups").run pruned).1 = .ok rest ∧ a ∈ rest := by
  intro v w as decided pruned
  have looked : lookAll v [] "backups" [.text "a", .text "b"] = .ok as := by decide +kernel
  have sorted : inOrder as = as := List.mergeSort_of_pairwise (by decide)
  have listed : ((list "backups").run w).1 = .ok as := by
    rw [(listEnd w "backups").1, ← sorted]
    exact listingOf (by decide +kernel) looked
  have kept : decided.keep = [⟨"a", 4, ⟨0, 0, by decide⟩⟩] := by decide +kernel
  obtain ⟨_, survive, files⟩ := prunedListsSpared listed (.smart 1 0 0 0)
  refine ⟨listed, by rw [kept]; rfl, survive.mpr fun a member => ?_⟩
  refine files a member ?_ [.text "backups", .text "a"] ⟨.text "dump", 0, ⟨0, 0, by decide⟩⟩ ?_ ?_
  · rw [kept, List.mem_singleton] at member
    rw [member]
    decide
  · rw [kept, List.mem_singleton] at member
    rw [member]
    decide +kernel
  · decide +kernel

/-- The kept backup is a link to the deleted one, and is no longer listed. -/
theorem prunedLosesLink :
    let v : Volume := ⟨[([.text "backups"], .directory), ([.text "backups", .text "a"], .link "b"),
      ([.text "backups", .text "b"], .file ⟨.text "dump", 0, ⟨0, 0, by decide⟩⟩)], by decide⟩
    let w : World := ⟨v, [], ⟨0, 0, by decide⟩, [], "", []⟩
    let as : List Artifact := [⟨"a", 4, ⟨0, 0, by decide⟩⟩, ⟨"b", 4, ⟨0, 0, by decide⟩⟩]
    let decided := Decision.evaluate as (.smart 1 0 0 0)
    let pruned := ((prune "backups" decided.delete).run ((list "backups").run w).2).2
    ((list "backups").run w).1 = .ok as ∧ decided.keep.map Artifact.id = ["a"] ∧
      ((list "backups").run pruned).1 = .ok [] := by
  intro v w as decided pruned
  have looked : lookAll v [] "backups" [.text "a", .text "b"] = .ok as := by decide +kernel
  have before : listing v [] "backups" = .ok (inOrder as) := listingOf (by decide +kernel) looked
  have sorted : inOrder as = as := List.mergeSort_of_pairwise (by decide)
  have nothing : lookAll pruned.volume pruned.here "backups" [.text "a"] = .ok [] := by
    decide +kernel
  have after : listing pruned.volume pruned.here "backups" = .ok (inOrder []) :=
    listingOf (by decide +kernel) nothing
  refine ⟨?_, by decide +kernel, ?_⟩
  · rw [(listEnd w "backups").1, ← sorted]
    exact before
  · rw [(listEnd pruned "backups").1, after]
    simp [inOrder]

end BackupDirectory
end BackupRotation
