import BackupRotation.Proofs.FileNames
import BackupRotation.Proofs.Listing
import BackupRotation.Proofs.Walks
/-! Deleting entries of a directory that are files or lead to files. No such entry lies on the way to the
directory itself, so every one of them is found where it was listed, whatever was deleted before. -/
namespace BackupRotation

namespace Volume

structure FileEntry (v : Volume) (directory : Location) (name : String) : Prop where
  short : name.utf8ByteSize ≤ nameLimit
  found : ∃ n, v.node? (directory ++ [.text name]) = some n ∧ n ≠ .directory
  ending : ∀ target, v.node? (directory ++ [.text name]) = some (.link target) →
    ∃ links l data, walk v .node links (origin directory target) (route target) = .ok l ∧
      v.node? l = some (.file data)

section Entries
variable {v : Volume} {here directory l : Location} {name : String} {steps : List String}
  {links : Nat} {data : FileData}

theorem fileEntryOfWalk (proper : name ≠ "" ∧ name ≠ "." ∧ name ≠ "..")
    (isDirectory : v.node? directory = some .directory)
    (walked : walk v .node links directory [name] = .ok l) (file : v.node? l = some (.file data)) :
    v.FileEntry directory name := by
  have short : name.utf8ByteSize ≤ nameLimit := by
    by_contra long
    rw [walkTurn, turnLong proper isDirectory (Nat.not_le.mp long)] at walked
    simp at walked
  by_cases link : ∃ target, v.node? (directory ++ [.text name]) = some (.link target)
  · obtain ⟨target, found⟩ := link
    rw [walkTurn, turnLink proper short isDirectory found] at walked
    simp only [List.append_nil] at walked
    refine ⟨short, ⟨_, found, by simp⟩, fun other same => ?_⟩
    obtain rfl : target = other := by simpa using found.symm.trans same
    cases links with
    | zero => simp at walked
    | succ links => exact ⟨links, l, data, walked, file⟩
  · rw [walkTurn, turnPlain proper short isDirectory (not_exists.mp link)] at walked
    simp only [walkNil, Except.ok.injEq] at walked
    rw [← walked] at file
    refine ⟨short, ⟨_, file, by simp⟩, fun target found => ?_⟩
    exact absurd ⟨target, found⟩ link

theorem fileEntryAside (entry : v.FileEntry directory name)
    (isDirectory : v.node? directory = some .directory)
    (walked : walk v .node links here steps = .ok directory) :
    directory ++ [.text name] ∉ v.wayOver links here steps := by
  intro onWay
  rcases walkFollows walked _ onWay with self | ⟨upper, step, target, rest, more, place, found, beyond⟩
  · simp at self
  · obtain ⟨rfl, _⟩ := List.append_inj' place rfl
    obtain ⟨some, l, data, ending, file⟩ := entry.ending target found
    -- the steps left go on from the file that the link leads to, and cannot
    obtain ⟨m, first, second⟩ := walkSplit beyond
    obtain rfl := walkUnique first ending
    cases rest with
    | nil =>
      rw [walkNil] at second
      rw [Except.ok.inj second, isDirectory] at file
      cases file
    | cons step rest =>
      rw [walkTurn] at second
      simp [turn, file] at second

end Entries

section Opened
variable {v : Volume} {here directory l : Location} {dir path : String} {size : Nat}
  {modified : Instant}

theorem statusFile (found : v.status here path = .ok (.file size modified)) :
    ∃ l data, v.locate here .node path = .ok l ∧ v.node? l = some (.file data) := by
  simp only [status, find, bind, Except.bind] at found
  cases h : v.locate here .node path with
  | error e => simp [h] at found
  | ok l =>
    cases k : v.node? l with
    | none => simp [h, k] at found
    | some n =>
      cases n with
      | file data => exact ⟨l, data, rfl, k⟩
      | directory => simp [h, k] at found
      | link target => simp [h, k] at found

theorem entriesIff {names : List Octets} : v.entries here dir = .ok names ↔
    ∃ directory, v.locate here .node dir = .ok directory ∧
      v.node? directory = some .directory ∧ names = v.names directory := by
  simp only [entries, find, bind, Except.bind]
  cases h : v.locate here .node dir with
  | error e => simp
  | ok l =>
    cases k : v.node? l with
    | none => simp [k]
    | some n =>
      cases n with
      | file data => simp [k]
      | directory => simp [k, eq_comm]
      | link target => simp [k]

theorem pathFilled (checked : checkPath path = .ok ()) : path ≠ "" := by
  intro empty
  subst empty
  simp [checkPath] at checked

theorem walkSteps (opened : v.locate here .node dir = .ok directory) :
    walk v .node linkLimit (origin here dir) (steps dir) = .ok directory := by
  have walked := (locateIff.mp opened).2
  unfold route at walked
  split at walked
  · obtain ⟨m, first, second⟩ := walkSplit walked
    rw [walkTurn] at second
    cases h : v.turn m "" with
    | stop e => simp [h] at second
    | on l =>
      have same : l = m := by
        have := h
        simp only [turn, turnOn h, true_or, if_true] at this
        cases this
        rfl
      simp only [h, walkNil] at second
      rw [first, ← Except.ok.inj second, same]
    | follow link target =>
      simp [turn, (turnFollow h).1] at h
  · exact walked

end Opened
end Volume
namespace Program
variable {w : World} {v : Volume} {path : String}

theorem leavesRemoved (h : w.volume.removeFile w.here path = .ok v) :
    (removeFile path).Leaves w (.ok ()) v := by
  refine ⟨[], ?_⟩
  rw [List.append_nil]
  show w.change (w.volume.removeFile w.here path) = _
  rw [h]
  rfl

theorem leavesRefused {e : FileError} (h : w.volume.removeFile w.here path = .error e) :
    (removeFile path).Leaves w (.error e) w.volume := by
  refine ⟨[], ?_⟩
  rw [List.append_nil]
  show w.change (w.volume.removeFile w.here path) = _
  rw [h]
  rfl

end Program

namespace BackupDirectory
open Volume
open Program (leavesPure leavesBind leavesTell leavesTellAll leavesRemoved leavesRefused)

def places (directory : Location) (ds : List Artifact) : List Location :=
  (ds.filter fun d => isFileName d.id).map fun d => directory ++ [.text d.id]

theorem memPlaces {directory l : Location} {ds : List Artifact} : l ∈ places directory ds ↔
    ∃ d ∈ ds, isFileName d.id ∧ l = directory ++ [.text d.id] := by
  simp only [places, List.mem_map, List.mem_filter]
  constructor
  · intro h
    obtain ⟨d, ⟨member, bare⟩, rfl⟩ := h
    exact ⟨d, member, bare, rfl⟩
  · intro h
    obtain ⟨d, member, bare, rfl⟩ := h
    exact ⟨d, ⟨member, bare⟩, rfl⟩

theorem placesSnoc (directory : Location) (ds : List Artifact) (d : Artifact) :
    places directory (ds ++ [d]) = places directory ds ++
      if isFileName d.id then [directory ++ [.text d.id]] else [] := by
  by_cases bare : isFileName d.id <;> simp [places, bare]

def deletion (directory : Location) (before : List Artifact) (id : String) :
    Except StorageError Unit :=
  if isFileName id then
    if directory ++ [.text id] ∈ places directory before then .error (.notFound id) else .ok ()
  else .error (.invalidIdentifier id)

def outcomes (directory : Location) (before : List Artifact) : List Artifact → List Outcome
  | [] => []
  | d :: ds =>
    Outcome.of d (deletion directory before d.id) :: outcomes directory (before ++ [d]) ds

def Deletable (v : Volume) (directory : Location) (dir : String) (ds : List Artifact) : Prop :=
  ∀ d ∈ ds, isFileName d.id → v.FileEntry directory d.id ∧ checkPath (Path.join dir d.id) = .ok ()

section Deletions
variable {v : Volume} {here directory : Location} {dir : String} {ds : List Artifact}

theorem placesRoot : [] ∉ places directory ds := by
  intro root
  obtain ⟨d, _, _, same⟩ := memPlaces.mp root
  simp at same

theorem placesPlain (deletable : Deletable v directory dir ds) :
    ∀ l ∈ places directory ds, v.node? l ≠ some .directory := by
  intro l hl
  obtain ⟨d, member, bare, rfl⟩ := memPlaces.mp hl
  obtain ⟨n, found, other⟩ := (deletable d member bare).1.found
  rw [found]
  simpa using other

theorem placesAside (deletable : Deletable v directory dir ds)
    (isDirectory : v.node? directory = some .directory) {start : Location} {steps : List String}
    {links : Nat} (walked : walk v .node links start steps = .ok directory) :
    ∀ l ∈ v.wayOver links start steps, l ∉ places directory ds := by
  intro l hl place
  obtain ⟨d, member, bare, rfl⟩ := memPlaces.mp place
  exact fileEntryAside (deletable d member bare).1 isDirectory walked hl

theorem locatePlace (opened : v.locate here .node dir = .ok directory)
    (isDirectory : v.node? directory = some .directory) (deletable : Deletable v directory dir ds)
    {name : String} (bare : BareName name) (short : name.utf8ByteSize ≤ nameLimit)
    (checked : checkPath (Path.join dir name) = .ok ()) :
    (v.clear (places directory ds)).locate here .name (Path.join dir name) =
      .ok (directory ++ [.text name]) := by
  have root : [] ∉ places directory ds := placesRoot
  have plain := placesPlain deletable
  have filled := pathFilled (locateIff.mp opened).1
  have walked := walkSteps opened
  have stays : directory ∉ places directory ds := fun taken => plain _ taken isDirectory
  have still : (v.clear (places directory ds)).node? directory = some .directory := by
    rw [nodeClear v root, if_neg stays, isDirectory]
  have there := walkAside root plain (placesAside deletable isDirectory walked)
  rw [walked] at there
  rw [locateIff, originJoin here bare filled, routeJoin bare filled]
  exact ⟨checked, walkName bare.1 short still there⟩

theorem removePlace (opened : v.locate here .node dir = .ok directory)
    (isDirectory : v.node? directory = some .directory) (deletable : Deletable v directory dir ds)
    {name : String} (bare : isFileName name) (entry : v.FileEntry directory name)
    (checked : checkPath (Path.join dir name) = .ok ()) :
    (v.clear (places directory ds)).removeFile here (Path.join dir name) =
      if directory ++ [.text name] ∈ places directory ds then .error .noEntry
      else .ok (v.clear (places directory ds ++ [directory ++ [.text name]])) := by
  have located := locatePlace opened isDirectory deletable (bareFileName bare) entry.short checked
  obtain ⟨n, found, other⟩ := entry.found
  simp only [removeFile, located, bind, Except.bind, nodeClear v placesRoot, clearSnoc]
  by_cases taken : directory ++ [.text name] ∈ places directory ds
  · simp [taken]
  · cases n with
    | directory => exact absurd rfl other
    | file data => simp [taken, found]
    | link target => simp [taken, found]

variable (opened : v.locate here .node dir = .ok directory)
  (isDirectory : v.node? directory = some .directory)
include opened isDirectory

theorem deleteLeaves {w : World} {d : Artifact} (deletable : Deletable v directory dir (ds ++ [d]))
    (volume : w.volume = v.clear (places directory ds)) (start : w.here = here) :
    (delete dir d.id).Leaves w (deletion directory ds d.id)
      (v.clear (places directory (ds ++ [d]))) := by
  rw [placesSnoc]
  unfold delete deletion
  by_cases bare : isFileName d.id
  · have before : Deletable v directory dir ds :=
      fun a member => deletable a (List.mem_append_left _ member)
    obtain ⟨entry, checked⟩ := deletable d (List.mem_append_right _ (List.mem_singleton_self d)) bare
    have removed := removePlace opened isDirectory before bare entry checked
    rw [← volume, ← start] at removed
    simp only [bare, if_true]
    by_cases taken : directory ++ [.text d.id] ∈ places directory ds
    · have absent : w.volume.node? (directory ++ [.text d.id]) = none := by
        rw [volume, nodeClear v placesRoot, if_pos taken]
      have same : v.clear (places directory ds ++ [directory ++ [.text d.id]]) = w.volume := by
        rw [clearSnoc, ← volume]
        exact eraseAbsent _ (by simp) absent
      rw [same, if_pos taken]
      rw [if_pos taken] at removed
      exact leavesBind (leavesRefused removed) fun _ => leavesPure _
    · rw [if_neg taken] at removed ⊢
      refine leavesBind (leavesRemoved removed) fun _ => ?_
      exact leavesBind (leavesTell _) fun _ => leavesPure _
  · simp only [bare, Bool.false_eq_true, if_false, List.append_nil, ← volume]
    exact leavesPure _

theorem deleteAllLeaves {w : World} {more : List Artifact}
    (deletable : Deletable v directory dir (ds ++ more))
    (volume : w.volume = v.clear (places directory ds)) (start : w.here = here) :
    (deleteAll dir more).Leaves w (outcomes directory ds more)
      (v.clear (places directory (ds ++ more))) := by
  induction more generalizing ds w with
  | nil =>
    rw [List.append_nil, ← volume]
    exact leavesPure _
  | cons d more ih =>
    rw [List.append_cons] at deletable ⊢
    have first : Deletable v directory dir (ds ++ [d]) :=
      fun a member => deletable a (List.mem_append_left _ member)
    refine leavesBind (deleteLeaves opened isDirectory first volume start) fun es => ?_
    exact leavesBind (ih deletable rfl start) fun _ => leavesPure _

theorem pruneLeaves {w : World} (deletable : Deletable v directory dir ds)
    (volume : w.volume = v) (start : w.here = here) :
    (prune dir ds).Leaves w (.ofOutcomes (outcomes directory [] ds))
      (v.clear (places directory ds)) := by
  have whole : (deleteAll dir ds).Leaves w (outcomes directory [] ds)
      (v.clear (places directory ([] ++ ds))) :=
    deleteAllLeaves opened isDirectory deletable volume start
  refine leavesBind whole fun _ => ?_
  exact leavesBind (leavesTellAll _) fun _ => leavesPure _

end Deletions
end BackupDirectory

end BackupRotation
