import BackupRotation.Proofs.Deletions
/-! What can be deleted by name, against what is listed. A deletion takes an entry of the directory that
is a file or a link, and it alone. Not every such entry is listed: files beside backups are not, and
links are not that lead to no file. A listed entry can be deleted unless its name has a backslash. -/
namespace BackupRotation

namespace Volume

theorem memNames {v : Volume} {directory : Location} {name : Octets} :
    name ∈ v.names directory ↔ ∃ n, v.node? (directory ++ [name]) = some n := by
  have inner : directory ++ [name] ≠ [] := by simp
  simp only [names, List.mem_filterMap, nameInIff, node?, inner, if_false, Option.map_eq_some_iff]
  constructor
  · intro h
    obtain ⟨e, member, place⟩ := h
    have some : (v.nodes.find? fun e => e.1 = directory ++ [name]).isSome :=
      List.find?_isSome.mpr ⟨e, member, by simpa using place⟩
    obtain ⟨found, there⟩ := Option.isSome_iff_exists.mp some
    exact ⟨_, found, there, rfl⟩
  · intro h
    obtain ⟨_, e, found, rfl⟩ := h
    exact ⟨e, List.mem_of_find?_eq_some found, by simpa using List.find?_some found⟩

section Names
variable {v v' : Volume} {here l : Location} {name path : String} {steps : List String} {links : Nat}

theorem removedAt : v.removeFile here path = .ok v' ↔ ∃ l n, v.locate here .name path = .ok l ∧
    v.node? l = some n ∧ n ≠ .directory ∧ v' = v.erase l := by
  simp only [removeFile, bind, Except.bind]
  cases located : v.locate here .name path with
  | error e => simp
  | ok l =>
    cases found : v.node? l with
    | none => simp [found]
    | some n => cases n <;> simp [found, eq_comm]

variable (proper : name ≠ "" ∧ name ≠ "." ∧ name ≠ "..")
include proper

theorem lastNamed (walked : walk v .name links here [name] = .ok l) :
    v.node? here = some .directory ∧ name.utf8ByteSize ≤ nameLimit ∧ l = here ++ [.text name] := by
  obtain ⟨jump, step⟩ : ∃ jump, walkWith v .name jump here [name] = .ok l := by
    cases links with
    | zero => exact ⟨_, walked⟩
    | succ links => exact ⟨_, walked⟩
  have directory : v.node? here = some .directory := by
    unfold walkWith at step
    split at step
    · contradiction
    · contradiction
    · contradiction
    · assumption
  have short : name.utf8ByteSize ≤ nameLimit := by
    by_contra long
    simp [walkWith, directory, proper, Nat.not_le.mp long] at step
  rw [walkLastName proper short directory] at walked
  exact ⟨directory, short, (Except.ok.inj walked).symm⟩

theorem walkNamed (walked : walk v .name links here (steps ++ [name]) = .ok l) :
    ∃ directory, walk v .node links here steps = .ok directory ∧
      v.node? directory = some .directory ∧ name.utf8ByteSize ≤ nameLimit ∧
        l = directory ++ [.text name] := by
  -- the last name is never followed, so the walk is that of the steps before it and then one look-up
  induction links, here, steps using walkInduct v with
  | done links here => exact ⟨here, walkNil .node links, lastNamed proper walked⟩
  | stop links here step steps e h => simp [nameTurn, h] at walked
  | on links here step steps m h ih =>
    rw [List.cons_append, nameTurn _ (by simp), h] at walked
    rw [walkTurn, h]
    exact ih walked
  | loop here step steps link target h => simp [nameTurn, h] at walked
  | follow links here step steps link target h ih =>
    rw [List.cons_append, nameTurn _ (by simp), h] at walked
    simp only [← List.append_assoc] at walked
    rw [walkTurn, h]
    exact ih walked

end Names

/-- Every name that is a text is one that a file system allows. -/
def ProperNames (v : Volume) : Prop :=
  ∀ e ∈ v.nodes, ∀ name, .text name ∈ e.1 → BackupDirectory.BareName name

theorem properAll {v : Volume}
    (all : ∀ e ∈ v.nodes, ∀ name ∈ e.1.filterMap Octets.text?, BackupDirectory.BareName name) :
    v.ProperNames := by
  intro e member name inside
  exact all e member name (List.mem_filterMap.mpr ⟨_, inside, rfl⟩)

theorem properEntry {v : Volume} (proper : v.ProperNames) {directory : Location} {name : String}
    (entry : .text name ∈ v.names directory) : BackupDirectory.BareName name := by
  simp only [names, List.mem_filterMap, nameInIff] at entry
  obtain ⟨e, member, place⟩ := entry
  exact proper e member name (by simp [place])

end Volume

namespace BackupDirectory
open Volume
open Program (courseBind courseDone leavesBind leavesEnd leavesPure leavesRefused leavesRemoved
  leavesTell)

section Joined
variable {name : String} (here : Location) (bare : BareName name)
include bare

theorem routeBare : route name = [name] := by
  have some : name.toList ≠ [] := by simpa using bare.1.1
  have closed : endsInSlash name = false := by
    rw [endsInSlash, Bool.eq_false_iff]
    intro slash
    exact bare.2 (List.mem_of_getLast? (by simpa using slash))
  simp [route, closed, steps, Text.splitAll_whole bare.2, some]

theorem originBare : origin here name = here := by
  have relative : name.toList.head? ≠ some '/' := fun slash => bare.2 (List.mem_of_head? slash)
  simp [origin, relative]

theorem joinWay (dir : String) : origin here (Path.join dir name) = origin here dir ∧
    route (Path.join dir name) = steps dir ++ [name] := by
  by_cases some : dir = ""
  · subst some
    have alone : Path.join "" name = name := by simp [Path.join]
    rw [alone, originBare here bare, routeBare bare]
    exact ⟨rfl, rfl⟩
  · exact ⟨originJoin here bare some, routeJoin bare some⟩

end Joined

/-- `id` names an entry of the directory that `dir` leads to, and the entry is a file or a link. -/
structure Removable (v : Volume) (here : Location) (dir id : String) (directory : Location) :
    Prop where
  leads : walk v .node linkLimit (origin here dir) (steps dir) = .ok directory
  isDirectory : v.node? directory = some .directory
  short : id.utf8ByteSize ≤ nameLimit
  checked : checkPath (Path.join dir id) = .ok ()
  found : ∃ n, v.node? (directory ++ [.text id]) = some n ∧ n ≠ .directory

section Deleted
variable {v v' : Volume} {w : World} {here directory : Location} {dir id : String}
  {as : List Artifact}

theorem removedIff (bare : BareName id) : v.removeFile here (Path.join dir id) = .ok v' ↔
    ∃ directory, Removable v here dir id directory ∧ v' = v.erase (directory ++ [.text id]) := by
  obtain ⟨start, way⟩ := joinWay here bare dir
  rw [removedAt]
  constructor
  · intro h
    obtain ⟨l, n, located, found, other, rfl⟩ := h
    rw [locateIff, start, way] at located
    obtain ⟨directory, leads, isDirectory, short, rfl⟩ := walkNamed bare.1 located.2
    exact ⟨directory, ⟨leads, isDirectory, short, located.1, n, found, other⟩, rfl⟩
  · intro h
    obtain ⟨directory, removable, rfl⟩ := h
    obtain ⟨n, found, other⟩ := removable.found
    refine ⟨directory ++ [.text id], n, ?_, found, other, rfl⟩
    rw [locateIff, start, way]
    exact ⟨removable.checked,
      walkName bare.1 removable.short removable.isDirectory removable.leads⟩

theorem deletedLeaves (bare : isFileName id)
    (removed : w.volume.removeFile w.here (Path.join dir id) = .ok v) :
    (delete dir id).Leaves w (.ok ()) v := by
  rw [deleteReports bare]
  refine leavesBind (leavesRemoved removed) fun es => ?_
  exact leavesBind (leavesTell _) fun _ => leavesPure _

theorem deletedIff : ((delete dir id).run w).1 = .ok () ↔
    isFileName id = true ∧ ∃ directory, Removable w.volume w.here dir id directory := by
  by_cases bare : isFileName id
  · simp only [bare, true_and]
    constructor
    · intro deleted
      cases removed : w.volume.removeFile w.here (Path.join dir id) with
      | ok v =>
        obtain ⟨directory, removable, _⟩ := (removedIff (bareFileName bare)).mp removed
        exact ⟨directory, removable⟩
      | error e =>
        rw [deleteReports bare, Program.run_bind, (leavesEnd (leavesRefused removed)).1] at deleted
        cases e <;> cases deleted
    · intro h
      obtain ⟨directory, removable⟩ := h
      have removed := (removedIff (bareFileName bare)).mpr ⟨directory, removable, rfl⟩
      exact (leavesEnd (deletedLeaves bare removed)).1
  · simp [delete, bare, Program.run_pure]

theorem removableEntry (removable : Removable v here dir id directory) :
    .text id ∈ v.names directory := by
  obtain ⟨n, found, _⟩ := removable.found
  exact memNames.mpr ⟨n, found⟩

theorem listedIff (listed : listing v here dir = .ok as)
    (removable : Removable v here dir id directory) : id ∈ as.map Artifact.id ↔
      BackupName.isSidecar id = false ∧
        ∃ size modified, v.status here (Path.join dir id) = .ok (.file size modified) := by
  constructor
  · intro member
    obtain ⟨a, inside, rfl⟩ := List.mem_map.mp member
    exact (lookSome (memListing listed inside)).2
  · intro h
    obtain ⟨backup, size, modified, status⟩ := h
    obtain ⟨other, opened, _⟩ := listingIff.mp listed
    obtain rfl := walkUnique removable.leads (walkSteps opened)
    let a : Artifact := ⟨id, UInt64.ofNat size, created id modified⟩
    have looked : look v here dir (.text a.id) = .ok (some a) := by simp [look, backup, status, ofStatus, a]
    have member : a ∈ as := (memListingIff listed opened).mpr ⟨removableEntry removable, looked⟩
    exact List.mem_map.mpr ⟨a, member, rfl⟩

theorem listedRemovable (listed : listing v here dir = .ok as) {a : Artifact} (member : a ∈ as)
    (bare : BareName a.id) : ∃ directory, Removable v here dir a.id directory := by
  obtain ⟨directory, opened, isDirectory, _⟩ := listingIff.mp listed
  obtain ⟨entry, checked, _⟩ := listedEntry opened isDirectory (memListing listed member) bare
  exact ⟨directory, walkSteps opened, isDirectory, entry.short, checked, entry.found⟩

end Deleted

theorem deletesBesideListed (w : World) (dir id : String) :
    (((delete dir id).run w).1 = .ok () ↔
      isFileName id = true ∧ ∃ directory, Removable w.volume w.here dir id directory) ∧
    ∀ directory, isFileName id → Removable w.volume w.here dir id directory →
      ((delete dir id).run w).2.volume = w.volume.erase (directory ++ [.text id]) ∧
      ∀ as, ((list dir).run w).1 = .ok as → (id ∈ as.map Artifact.id ↔
        BackupName.isSidecar id = false ∧
          ∃ size modified, w.volume.status w.here (Path.join dir id) = .ok (.file size modified)) := by
  refine ⟨deletedIff, fun directory bare removable => ⟨?_, fun as listed => ?_⟩⟩
  · have removed := (removedIff (bareFileName bare)).mpr ⟨directory, removable, rfl⟩
    exact (leavesEnd (deletedLeaves bare removed)).2.1
  · rw [(listEnd w dir).1] at listed
    exact listedIff listed removable

theorem deletesBesideListedSum :
    let dump : Node := .file ⟨.text "dump", 0, ⟨0, 0, by decide⟩⟩
    let v : Volume := ⟨[([.text "backups"], .directory), ([.text "backups", .text "a"], dump),
      ([.text "backups", .text "a.md5"], dump)], by decide⟩
    let w : World := ⟨v, [], ⟨0, 0, by decide⟩, [], "", []⟩
    Removable v [] "backups" "a.md5" [.text "backups"] ∧
      ((delete "backups" "a.md5").run w).2.volume =
        v.erase [.text "backups", .text "a.md5"] ∧
      ∃ as, ((list "backups").run w).1 = .ok as ∧ "a.md5" ∉ as.map Artifact.id := by
  intro dump v w
  have removable : Removable v [] "backups" "a.md5" [.text "backups"] :=
    ⟨by decide +kernel, by decide +kernel, by decide, by decide, dump, by decide +kernel, by decide⟩
  let as : List Artifact := [⟨"a", 4, ⟨0, 0, by decide⟩⟩]
  have looked : lookAll v [] "backups" [.text "a", .text "a.md5"] = .ok as := by decide +kernel
  have listed : ((list "backups").run w).1 = .ok as :=
    listAnswers (by decide +kernel) looked (by decide)
  obtain ⟨left, beside⟩ := (deletesBesideListed w "backups" "a.md5").2 _ (by decide +kernel) removable
  refine ⟨removable, left, as, listed, fun member => ?_⟩
  have sidecar : BackupName.isSidecar "a.md5" = true := by decide +kernel
  simp [((beside as listed).mp member).1] at sidecar

theorem deletesUnlisted :
    let dump : Node := .file ⟨.text "dump", 0, ⟨0, 0, by decide⟩⟩
    let v : Volume := ⟨[([.text "backups"], .directory), ([.text "backups", .text "a"], dump),
      ([.text "backups", .text "a.md5"], dump), ([.text "backups", .text "b"], .link "gone"),
      ([.text "backups", .text "c"], .link "old"), ([.text "backups", .text "old"], .directory)],
      by decide⟩
    let w : World := ⟨v, [], ⟨0, 0, by decide⟩, [], "", []⟩
    ((list "backups").run w).1 = .ok [⟨"a", 4, ⟨0, 0, by decide⟩⟩] ∧
      ∀ id ∈ ["a.md5", "b", "c"], ((delete "backups" id).run w).1 = .ok () := by
  intro dump v w
  let as : List Artifact := [⟨"a", 4, ⟨0, 0, by decide⟩⟩]
  have looked : lookAll v [] "backups" (v.names [.text "backups"]) = .ok as := by decide +kernel
  exact ⟨listAnswers (by decide +kernel) looked (by decide), by decide +kernel⟩

section Refused
variable {v : Volume} {w : World} {here : Location} {dir id : String} {as : List Artifact}

theorem fileNameIff {name : String} (bare : BareName name) (whole : '\x00' ∉ name.toList) :
    isFileName name = true ↔ '\\' ∉ name.toList := by
  simp only [isFileName, bare.1, ne_eq, not_false_eq_true, decide_true, Bool.true_and,
    List.all_eq_true, Bool.and_eq_true, decide_eq_true_eq]
  constructor
  · intro all slash
    exact (all _ slash).1.2 rfl
  · intro none c member
    refine ⟨⟨?_, ?_⟩, ?_⟩
    · rintro rfl
      exact bare.2 member
    · rintro rfl
      exact none member
    · rintro rfl
      exact whole member

theorem namedWhole (checked : checkPath (Path.join dir id) = .ok ()) (some : dir ≠ "")
    (bare : BareName id) : '\x00' ∉ id.toList := by
  intro null
  obtain ⟨before, joined, _⟩ := joinFile bare some
  have inside : '\x00' ∈ (Path.join dir id).toList := by
    rw [joined]
    exact List.mem_append_right _ (List.mem_cons_of_mem _ null)
  simp [checkPath, inside] at checked

theorem listedNamed (proper : v.ProperNames) (listed : listing v here dir = .ok as) {a : Artifact}
    (member : a ∈ as) : BareName a.id ∧ '\x00' ∉ a.id.toList := by
  obtain ⟨directory, opened, _, _, rfl⟩ := listingIff.mp listed
  have inside : .text a.id ∈ v.names directory := by
    rw [inOrder, List.mem_mergeSort, List.mem_filterMap] at member
    obtain ⟨entry, there, found⟩ := member
    exact shownName found ▸ there
  have bare := properEntry proper inside
  obtain ⟨_, removable⟩ := listedRemovable listed member bare
  exact ⟨bare, namedWhole removable.checked (pathFilled (locateIff.mp opened).1) bare⟩

theorem reportNamed {path : String} {answer : Except FileError Unit} {tried : List String}
    {result : Except StorageError Unit} {after : World}
    (course : (reportRemoval id path answer).Course w tried result after) (name : String) :
    result ≠ .error (.invalidIdentifier name) := by
  cases answer with
  | ok u =>
    rw [(reportCourse course).2.1.mpr rfl]
    simp
  | error e =>
    cases e <;> rw [(courseDone course).2.1] <;> simp

theorem deleteRefuses {tried : List String} {result : Except StorageError Unit} {after : World}
    (course : (delete dir id).Course w tried result after) :
    (∃ name, result = .error (.invalidIdentifier name)) ↔ isFileName id = false := by
  by_cases bare : isFileName id
  · rw [deleteReports bare] at course
    obtain ⟨_, _, _, _, _, _, reported⟩ := courseBind course
    simp [bare, reportNamed reported]
  · simp only [delete, bare, Bool.false_eq_true, if_false] at course
    simp [(courseDone course).2.1, bare]

end Refused

theorem listedAccepted {w : World} {dir : String} {as : List Artifact}
    (proper : w.volume.ProperNames) (listed : ((list dir).run w).1 = .ok as) {a : Artifact}
    (member : a ∈ as) :
    (∀ w' tried result after, (delete dir a.id).Course w' tried result after →
      ((∃ name, result = .error (.invalidIdentifier name)) ↔ '\\' ∈ a.id.toList)) ∧
    ('\\' ∉ a.id.toList → ((delete dir a.id).run ((list dir).run w).2).1 = .ok ()) := by
  obtain ⟨answer, volume, start⟩ := listEnd w dir
  rw [answer] at listed
  obtain ⟨bare, whole⟩ := listedNamed proper listed member
  have named := fileNameIff bare whole
  constructor
  · intro w' tried result after course
    rw [deleteRefuses course, Bool.eq_false_iff, ne_eq, named, not_not]
  · intro plain
    rw [deletedIff, volume, start]
    exact ⟨named.mpr plain, listedRemovable listed member bare⟩

theorem listedAcceptedPlain :
    let dump : Node := .file ⟨.text "dump", 0, ⟨0, 0, by decide⟩⟩
    let v : Volume := ⟨[([.text "backups"], .directory), ([.text "backups", .text "a..b"], dump)],
      by decide⟩
    let w : World := ⟨v, [], ⟨0, 0, by decide⟩, [], "", []⟩
    let a : Artifact := ⟨"a..b", 4, ⟨0, 0, by decide⟩⟩
    v.ProperNames ∧ ((list "backups").run w).1 = .ok [a] ∧
      ((delete "backups" a.id).run ((list "backups").run w).2).1 = .ok () := by
  intro dump v w a
  have looked : lookAll v [] "backups" [.text "a..b"] = .ok [a] := by decide +kernel
  have listed : ((list "backups").run w).1 = .ok [a] :=
    listAnswers (by decide +kernel) looked (by decide)
  have proper : v.ProperNames := properAll (by decide +kernel)
  exact ⟨proper, listed, (listedAccepted proper listed (List.mem_singleton_self a)).2 (by decide)⟩

/-- A backslash divides no path here, so a file can be listed under a name that has one. -/
theorem listedRefused :
    let v : Volume := ⟨[([.text "backups"], .directory),
      ([.text "backups", .text "a\\b"], .file ⟨.text "dump", 0, ⟨0, 0, by decide⟩⟩)], by decide⟩
    let w : World := ⟨v, [], ⟨0, 0, by decide⟩, [], "", []⟩
    let a : Artifact := ⟨"a\\b", 4, ⟨0, 0, by decide⟩⟩
    ((list "backups").run w).1 = .ok [a] ∧
      ((delete "backups" a.id).run w).1 = .error (.invalidIdentifier a.id) := by
  intro v w a
  have looked : lookAll v [] "backups" [.text "a\\b"] = .ok [a] := by decide +kernel
  exact ⟨listAnswers (by decide +kernel) looked (by decide), by decide +kernel⟩

end BackupDirectory
end BackupRotation
