import BackupRotation.Proofs.EntryDeletion
/-! Listing a directory to which links are added that lead to nothing. Only a link whose end is missing is
passed over; one that runs in a circle or through a file is an entry that cannot be looked at, and then
nothing is listed. No other backup is lost or gained by such links. -/
namespace BackupRotation

namespace Volume

/-- A link that leads to nothing, with all the links that can be followed on one path. -/
def Broken (v : Volume) (l : Location) : Prop :=
  ∃ directory name target, l = directory ++ [name] ∧ v.node? l = some (.link target) ∧
    ∀ m, walk v .node linkLimit (origin directory target) (route target) = .ok m → v.node? m = none

def withLinks (v : Volume) (directory : Location) (links : List (Octets × String)) : Volume :=
  links.foldl (fun v link => v.insert (directory ++ [link.1]) (.link link.2)) v

section Added
variable {v : Volume} {directory : Location} {links : List (Octets × String)}

theorem withLinksNodes {gone : List Location} (inside : ∀ link ∈ links, directory ++ [link.1] ∈ gone) :
    (v.withLinks directory links).nodes.filter (fun e => e.1 ∉ gone) =
      v.nodes.filter fun e => e.1 ∉ gone := by
  induction links generalizing v with
  | nil => rfl
  | cons link links ih =>
    obtain ⟨first, others⟩ := List.forall_mem_cons.mp inside
    have same : (v.insert (directory ++ [link.1]) (.link link.2)).nodes.filter (fun e => e.1 ∉ gone) =
        v.nodes.filter fun e => e.1 ∉ gone := by
      simp only [insert, List.filter_cons, first, not_true, decide_false, Bool.false_eq_true, if_false,
        eraseNodes, List.filter_filter]
      refine List.filter_congr fun e _ => ?_
      by_cases place : e.1 = directory ++ [link.1]
      · simp [place, first]
      · simp [place]
    exact (ih others).trans same

theorem clearLinks (fresh : ∀ link ∈ links, v.node? (directory ++ [link.1]) = none) :
    (v.withLinks directory links).clear (links.map fun link => directory ++ [link.1]) = v := by
  have inside : ∀ link ∈ links, directory ++ [link.1] ∈ links.map fun link => directory ++ [link.1] :=
    fun link member => List.mem_map_of_mem member
  refine sameNodes ?_
  rw [clearNodes, withLinksNodes inside]
  refine List.filter_eq_self.mpr fun e member => decide_eq_true fun taken => ?_
  obtain ⟨link, added, place⟩ := List.mem_map.mp taken
  exact absentNodes v (by simp) (fresh link added) e member place.symm

end Added

section Astray
variable {v : Volume} {gone : List Location} {here l : Location} {steps : List String} {links : Nat}
  {path : String} {data : FileData}

theorem brokenFailed (directory : Location) (name : Octets) {target : String} {e : FileError}
    (found : v.node? (directory ++ [name]) = some (.link target))
    (failed : walk v .node linkLimit (origin directory target) (route target) = .error e) :
    v.Broken (directory ++ [name]) :=
  ⟨directory, name, target, rfl, found, fun m walked => by simp [failed] at walked⟩

theorem brokenBehind {directory : Location} {target : String} {rest : List String}
    (nothing : ∀ m, walk v .node linkLimit (origin directory target) (route target) = .ok m →
      v.node? m = none) (le : links ≤ linkLimit)
    (walked : walk v .node links (origin directory target) (route target ++ rest) = .ok l) :
    v.node? l = none := by
  obtain ⟨m, first, second⟩ := walkSplit walked
  have missing := nothing m (walkMore le first)
  cases rest with
  | nil =>
    rw [walkNil] at second
    rw [← Except.ok.inj second, missing]
  | cons step rest => simp [walkTurn, turn, missing] at second

variable (broken : ∀ l ∈ gone, v.Broken l)
include broken

theorem brokenRoot : [] ∉ gone := by
  intro root
  obtain ⟨directory, name, _, same, _⟩ := broken [] root
  simp at same

theorem brokenPlain : ∀ l ∈ gone, v.node? l ≠ some .directory := by
  intro l member
  obtain ⟨_, _, target, _, found, _⟩ := broken l member
  simp [found]

theorem walkBroken (le : links ≤ linkLimit) (across : ∃ l ∈ v.wayOver links here steps, l ∈ gone)
    (walked : walk v .node links here steps = .ok l) : v.node? l ≠ some (.file data) := by
  induction links, here, steps using walkInduct v with
  | done links here =>
    simp only [wayNil, List.mem_singleton, exists_eq_left] at across
    obtain ⟨_, _, target, _, found, _⟩ := broken here across
    rw [walkNil] at walked
    simp [← Except.ok.inj walked, found]
  | stop links here step steps e h => simp [walkTurn, h] at walked
  | on links here step steps m h ih =>
    simp only [wayTurn, h] at across
    simp only [walkTurn, h] at walked
    exact ih le across walked
  | loop here step steps link target h => simp [walkTurn, h] at walked
  | follow links here step steps link target h ih =>
    have fewer : links ≤ linkLimit := Nat.le_of_succ_le le
    simp only [walkTurn, h] at walked
    simp only [wayTurn, h, List.mem_cons] at across
    obtain ⟨m, rfl | beyond, inside⟩ := across
    · -- the way goes on from the target of a link that leads to nothing
      obtain ⟨_, place, found⟩ := turnFollow h
      obtain ⟨directory, name, other, place', found', nothing⟩ := broken m inside
      obtain ⟨rfl, _⟩ := List.append_inj' (place.symm.trans place') rfl
      obtain rfl : target = other := by simpa using found.symm.trans found'
      simp [brokenBehind nothing fewer walked]
    · exact ih fewer ⟨m, beyond, inside⟩ walked

theorem statusBroken (across : ∃ l ∈ v.way here path, l ∈ gone) :
    ∀ size modified, v.status here path ≠ .ok (.file size modified) := by
  intro size modified status
  obtain ⟨l, data, located, file⟩ := statusFile status
  exact walkBroken broken (Nat.le_refl _) across (locateIff.mp located).2 file

end Astray
end Volume

namespace BackupDirectory
open Volume

/-- A listing that comes to this entry stops there. -/
def Blocks (v : Volume) (here : Location) (dir fileName : String) (e : FileError) : Prop :=
  BackupName.isSidecar fileName = false ∧ v.status here (Path.join dir fileName) = .error e ∧
    e ≠ .noEntry

section Blocked
variable {v : Volume} {here directory : Location} {dir fileName : String} {as : List Artifact}
  {cause : StorageError}

theorem lookError {entry : Octets} : look v here dir entry = .error cause ↔
    ∃ fileName e, entry = .text fileName ∧ Blocks v here dir fileName e ∧
      cause = .inaccessible (Path.join dir fileName) e := by
  cases entry with
  | raw bytes => simp [look]
  | text fileName =>
    by_cases sidecar : BackupName.isSidecar fileName
    · simp [look, Blocks, sidecar]
    · have own : look v here dir (.text fileName) = .error cause ↔ ∃ e,
          v.status here (Path.join dir fileName) = .error e ∧ e ≠ .noEntry ∧
            cause = .inaccessible (Path.join dir fileName) e := by
        simp only [look, sidecar, Bool.false_eq_true, if_false]
        cases v.status here (Path.join dir fileName) with
        | ok s => cases s <;> simp [ofStatus]
        | error e => cases e <;> simp [ofStatus, eq_comm]
      simp [own, Blocks, sidecar, and_assoc]

theorem lookAllError {entries : List Octets} (failed : lookAll v here dir entries = .error cause) :
    ∃ entry ∈ entries, look v here dir entry = .error cause := by
  induction entries with
  | nil => simp [lookAll] at failed
  | cons entry entries ih =>
    simp only [lookAll] at failed
    cases looked : look v here dir entry with
    | error e =>
      simp only [looked, Except.error.injEq] at failed
      exact ⟨entry, List.mem_cons_self, failed ▸ looked⟩
    | ok found =>
      cases others : lookAll v here dir entries with
      | ok more => simp [looked, others] at failed
      | error e =>
        simp only [looked, others, Except.error.injEq] at failed
        obtain ⟨other, member, same⟩ := ih (failed ▸ others)
        exact ⟨other, List.mem_cons_of_mem _ member, same⟩

theorem listingBlocked (opened : v.locate here .node dir = .ok directory)
    (isDirectory : v.node? directory = some .directory)
    (failed : listing v here dir = .error cause) :
    ∃ fileName e, .text fileName ∈ v.names directory ∧ Blocks v here dir fileName e ∧
      cause = .inaccessible (Path.join dir fileName) e := by
  have found := entriesIff.mpr ⟨directory, opened, isDirectory, rfl⟩
  simp only [listing, found] at failed
  cases looked : lookAll v here dir (v.names directory) with
  | ok more => simp [looked, Except.map] at failed
  | error e =>
    simp only [looked, Except.map, Except.error.injEq] at failed
    obtain ⟨entry, member, stopped⟩ := lookAllError (failed ▸ looked)
    obtain ⟨fileName, e, rfl, blocks, same⟩ := lookError.mp stopped
    exact ⟨fileName, e, member, blocks, same⟩

theorem lookedFree {found : Option Artifact} {e : FileError}
    (looked : look v here dir (.text fileName) = .ok found) : ¬ Blocks v here dir fileName e := by
  intro blocks
  have stopped := lookError.mpr ⟨fileName, e, rfl, blocks, rfl⟩
  simp [looked] at stopped

theorem listingFree (opened : v.locate here .node dir = .ok directory)
    (listed : listing v here dir = .ok as) :
    ∀ fileName e, .text fileName ∈ v.names directory → ¬ Blocks v here dir fileName e := by
  intro fileName e member
  obtain ⟨other, there, _, all, _⟩ := listingIff.mp listed
  obtain rfl := Except.ok.inj (opened.symm.trans there)
  obtain ⟨found, looked⟩ := all _ member
  exact lookedFree looked

theorem lookNothing (nothing : ∀ size modified,
      v.status here (Path.join dir fileName) ≠ .ok (.file size modified))
    (free : ∀ e, ¬ Blocks v here dir fileName e) : look v here dir (.text fileName) = .ok none := by
  cases looked : look v here dir (.text fileName) with
  | error cause =>
    obtain ⟨_, e, same, blocks, _⟩ := lookError.mp looked
    cases same
    exact absurd blocks (free e)
  | ok found =>
    cases found with
    | none => rfl
    | some a =>
      obtain ⟨same, _, size, modified, file⟩ := lookSome looked
      cases same
      exact absurd file (nothing size modified)

end Blocked

section Broken
variable {v : Volume} {gone : List Location} {here directory : Location} {dir : String}
  {as : List Artifact} (broken : ∀ l ∈ gone, v.Broken l)
include broken

theorem openedBroken (opened : (v.clear gone).locate here .node dir = .ok directory)
    (isDirectory : (v.clear gone).node? directory = some .directory) :
    v.locate here .node dir = .ok directory ∧ v.node? directory = some .directory := by
  have root := brokenRoot broken
  obtain ⟨checked, walked⟩ := locateIff.mp opened
  constructor
  · by_cases aside : ∀ l ∈ v.way here dir, l ∉ gone
    · rw [locateIff, ← walkAside root (brokenPlain broken) aside]
      exact ⟨checked, walked⟩
    · have across : ∃ l ∈ v.way here dir, l ∈ gone := by simpa using aside
      have lost := walkLost root (brokenPlain broken) across
      rw [walked, Lost, isDirectory] at lost
      contradiction
  · rw [nodeClear v root] at isDirectory
    split at isDirectory
    · contradiction
    · exact isDirectory

theorem lookAdded {fileName : String} (opened : v.locate here .node dir = .ok directory)
    (isDirectory : v.node? directory = some .directory) (bare : BareName fileName)
    (added : directory ++ [.text fileName] ∈ gone) (free : ∀ e, ¬ Blocks v here dir fileName e) :
    look v here dir (.text fileName) = .ok none := by
  by_cases sidecar : BackupName.isSidecar fileName
  · simp [look, sidecar]
  · refine lookNothing (fun size modified status => ?_) free
    let a : Artifact := ⟨fileName, UInt64.ofNat size, created fileName modified⟩
    have looked : look v here dir (.text a.id) = .ok (some a) := by
      simp [look, sidecar, status, ofStatus, a]
    have onWay := (listedEntry opened isDirectory looked bare).2.2
    exact statusBroken broken ⟨_, onWay, added⟩ size modified status

theorem lookBefore {entry : Octets} {found : Option Artifact}
    (looked : look (v.clear gone) here dir entry = .ok found)
    (free : ∀ fileName e, entry = .text fileName → ¬ Blocks v here dir fileName e) :
    look v here dir entry = .ok found := by
  cases entry with
  | raw bytes => exact looked
  | text fileName =>
    have root := brokenRoot broken
    have plain := brokenPlain broken
    by_cases aside : ∀ l ∈ v.way here (Path.join dir fileName), l ∉ gone
    · simp only [look, statusAside root plain aside] at looked ⊢
      exact looked
    · have across : ∃ l ∈ v.way here (Path.join dir fileName), l ∈ gone := by simpa using aside
      have nothing := lookNothing (statusBroken broken across) fun e => free fileName e rfl
      have clear : (v.clear gone).status here (Path.join dir fileName) =
          v.status here (Path.join dir fileName) ∨
            (v.clear gone).status here (Path.join dir fileName) = .error .noEntry :=
        statusClear root plain
      rcases clear with same | lost
      · simp only [look, same] at looked ⊢
        exact looked
      · rw [nothing, ← looked]
        simp [look, lost, ofStatus]

theorem listingBroken (proper : v.ProperNames)
    (opened : v.locate here .node dir = .ok directory)
    (isDirectory : v.node? directory = some .directory)
    (listed : listing (v.clear gone) here dir = .ok as)
    (free : ∀ fileName e, .text fileName ∈ v.names directory → ¬ Blocks v here dir fileName e) :
    listing v here dir = .ok as := by
  obtain ⟨other, opened', isDirectory', all, rfl⟩ := listingIff.mp listed
  obtain rfl := Except.ok.inj (opened.symm.trans (openedBroken broken opened' isDirectory').1)
  -- an added entry gives nothing, and every other one gives what it gave before: also the one whose way
  -- leads over an added link, for that way ended nowhere and still ends in no file
  have added : ∀ entry ∈ v.names directory, directory ++ [entry] ∈ gone →
      look v here dir entry = .ok none := by
    intro entry member taken
    cases entry with
    | raw bytes => rfl
    | text fileName =>
      exact lookAdded broken opened isDirectory (properEntry proper member) taken
        fun e => free fileName e member
  have before : ∀ entry ∈ v.names directory, directory ++ [entry] ∉ gone →
      ∃ found, look (v.clear gone) here dir entry = .ok found ∧ look v here dir entry = .ok found := by
    intro entry member stays
    obtain ⟨found, looked⟩ := all entry (by simp [namesClear, member, stays])
    refine ⟨found, looked, lookBefore broken looked ?_⟩
    rintro fileName e rfl
    exact free fileName e member
  refine listingIff.mpr ⟨directory, opened, isDirectory, fun entry member => ?_, ?_⟩
  · by_cases taken : directory ++ [entry] ∈ gone
    · exact ⟨none, added entry member taken⟩
    · obtain ⟨found, _, looked⟩ := before entry member taken
      exact ⟨found, looked⟩
  · rw [namesClear, List.filterMap_filter]
    refine congrArg inOrder (List.filterMap_congr fun entry member => ?_)
    by_cases taken : directory ++ [entry] ∈ gone
    · simp [taken, shown, added entry member taken]
    · obtain ⟨found, first, second⟩ := before entry member taken
      simp [taken, shown, first, second]

end Broken

theorem listedWithLinks {w : World} {dir : String} {directory : Location}
    {links : List (Octets × String)} {as : List Artifact} (listed : ((list dir).run w).1 = .ok as)
    (opened : w.volume.locate w.here .node dir = .ok directory)
    (fresh : ∀ link ∈ links, w.volume.node? (directory ++ [link.1]) = none)
    (proper : (w.volume.withLinks directory links).ProperNames)
    (broken : ∀ link ∈ links,
      (w.volume.withLinks directory links).Broken (directory ++ [link.1])) :
    let v := w.volume.withLinks directory links
    let answer := ((list dir).run { w with volume := v }).1
    (answer = .ok as ∧
      ∀ fileName e, .text fileName ∈ v.names directory → ¬ Blocks v w.here dir fileName e) ∨
    ∃ fileName e, .text fileName ∈ v.names directory ∧ Blocks v w.here dir fileName e ∧
      answer = .error (.inaccessible (Path.join dir fileName) e) := by
  intro v answer
  rw [(listEnd w dir).1, ← clearLinks fresh] at listed
  have same : answer = listing v w.here dir := (listEnd { w with volume := v } dir).1
  rw [same]
  have gone : ∀ l ∈ links.map fun link => directory ++ [link.1], v.Broken l := by
    intro l member
    obtain ⟨link, added, rfl⟩ := List.mem_map.mp member
    exact broken link added
  obtain ⟨other, opened', isDirectory', _⟩ := listingIff.mp listed
  obtain rfl : directory = other := by
    rw [clearLinks fresh, opened] at opened'
    exact Except.ok.inj opened'
  obtain ⟨there, isDirectory⟩ := openedBroken gone opened' isDirectory'
  cases answered : listing v w.here dir with
  | ok found =>
    have free := listingFree there answered
    have kept := listingBroken gone proper there isDirectory listed free
    exact .inl ⟨answered.symm.trans kept, free⟩
  | error cause =>
    obtain ⟨fileName, e, member, blocks, rfl⟩ := listingBlocked there isDirectory answered
    exact .inr ⟨fileName, e, member, blocks, rfl⟩

theorem listedWithDanglingLinks :
    let v : Volume := ⟨[([.text "backups"], .directory),
      ([.text "backups", .text "a"], .file ⟨.text "dump", 0, ⟨0, 0, by decide⟩⟩)], by decide⟩
    let w : World := ⟨v, [], ⟨0, 0, by decide⟩, [], "", []⟩
    let links : List (Octets × String) := [(.text "b", "gone"), (.text ".c", ".c")]
    let v' := v.withLinks [.text "backups"] links
    let as : List Artifact := [⟨"a", 4, ⟨0, 0, by decide⟩⟩]
    ((list "backups").run w).1 = .ok as ∧ v'.ProperNames ∧
      (∀ link ∈ links, v'.Broken ([.text "backups"] ++ [link.1])) ∧
      ((list "backups").run { w with volume := v' }).1 = .ok as := by
  intro v w links v' as
  have looked : lookAll v [] "backups" [.text "a"] = .ok as := by decide +kernel
  have listed : ((list "backups").run w).1 = .ok as :=
    listAnswers (by decide +kernel) looked (by decide)
  have proper : v'.ProperNames := properAll (by decide +kernel)
  have ended : walk v' .node linkLimit (origin [.text "backups"] "gone") (route "gone") =
      .ok [.text "backups", .text "gone"] := by decide +kernel
  have loop : walk v' .node linkLimit (origin [.text "backups"] ".c") (route ".c") =
      .error .linkLoop := by decide +kernel
  have broken : ∀ link ∈ links, v'.Broken ([.text "backups"] ++ [link.1]) := by
    intro link member
    simp only [links, List.mem_cons, List.not_mem_nil, or_false] at member
    rcases member with rfl | rfl
    · refine ⟨_, _, "gone", rfl, by decide +kernel, fun m walked => ?_⟩
      obtain rfl := Except.ok.inj (ended.symm.trans walked)
      decide +kernel
    · exact brokenFailed _ _ (by decide +kernel) loop
  refine ⟨listed, proper, broken, ?_⟩
  rcases listedWithLinks listed (by decide +kernel) (by decide +kernel) proper broken with
    ⟨same, _⟩ | ⟨fileName, e, member, blocks, _⟩
  · exact same
  · have all : lookAll v' [] "backups" (v'.names [.text "backups"]) = .ok as := by decide +kernel
    obtain ⟨found, looked⟩ := (lookAllIff.mp all).1 _ member
    exact absurd blocks (lookedFree looked)

theorem listedNoMore :
    let v : Volume := ⟨[([.text "backups"], .directory),
      ([.text "backups", .text "a"], .file ⟨.text "dump", 0, ⟨0, 0, by decide⟩⟩)], by decide⟩
    let w : World := ⟨v, [], ⟨0, 0, by decide⟩, [], "", []⟩
    let through := v.withLinks [.text "backups"] [(.text "b", "a/x")]
    let circle := v.withLinks [.text "backups"] [(.text "b", "b")]
    ((list "backups").run w).1 = .ok [⟨"a", 4, ⟨0, 0, by decide⟩⟩] ∧
      (through.Broken [.text "backups", .text "b"] ∧
        ((list "backups").run { w with volume := through }).1 =
          .error (.inaccessible "backups/b" .notDirectory)) ∧
      circle.Broken [.text "backups", .text "b"] ∧
        ((list "backups").run { w with volume := circle }).1 =
          .error (.inaccessible "backups/b" .linkLoop) := by
  intro v w through circle
  let as : List Artifact := [⟨"a", 4, ⟨0, 0, by decide⟩⟩]
  have looked : lookAll v [] "backups" [.text "a"] = .ok as := by decide +kernel
  have file : walk through .node linkLimit (origin [.text "backups"] "a/x") (route "a/x") =
      .error .notDirectory := by decide +kernel
  have loop : walk circle .node linkLimit (origin [.text "backups"] "b") (route "b") =
      .error .linkLoop := by decide +kernel
  refine ⟨?_, ⟨?_, by decide +kernel⟩, ?_, by decide +kernel⟩
  · exact listAnswers (by decide +kernel) looked (by decide)
  · exact brokenFailed [.text "backups"] (.text "b") (by decide +kernel) file
  · exact brokenFailed [.text "backups"] (.text "b") (by decide +kernel) loop

end BackupDirectory
end BackupRotation
