import BackupRotation.Proofs.BrokenLinks
import BackupRotation.Proofs.Growth
import BackupRotation.Proofs.Rows
/-! The contents of a backup directory: the entries that are files and do not accompany backups, in the
order of the bytes of their names. The order in which the volume holds them does not matter. -/
namespace BackupRotation

namespace BackupName
open Text (lower sameIgnoringCase splitLast?_append splitLast?_some)

/-- Hidden files, and files whose last extension is that of a sidecar, in any case. -/
inductive Accompanies : List Char → Prop where
  | hidden (rest) : Accompanies ('.' :: rest)
  | extended (before) {extension} (last : '.' ∉ extension)
      (sidecar : lower extension ∈ sidecarExtensions.map String.toList) :
      Accompanies (before ++ '.' :: extension)

theorem extensionIff {extension : List Char} :
    (sidecarExtensions.any fun s => sameIgnoringCase s.toList extension) = true ↔
      lower extension ∈ sidecarExtensions.map String.toList := by
  have small : ∀ s ∈ sidecarExtensions, lower s.toList = s.toList := by decide
  simp only [List.any_eq_true, List.mem_map]
  refine exists_congr fun s => and_congr_right fun listed => ?_
  rw [sameIgnoringCase, small s listed, beq_iff_eq]

theorem sidecarIff {fileName : String} : isSidecar fileName = true ↔ Accompanies fileName.toList := by
  unfold isSidecar
  split
  · rename_i rest hidden
    exact iff_of_true rfl (hidden ▸ .hidden rest)
  · rename_i cs plain
    constructor
    · intro sidecar
      split at sidecar
      · rename_i before extension cut
        obtain ⟨whole, last⟩ := splitLast?_some cut
        rw [whole]
        exact .extended before last (extensionIff.mp sidecar)
      · contradiction
    · generalize fileName.toList = cs at plain
      rintro (⟨rest⟩ | ⟨before, last, sidecar⟩)
      · exact absurd rfl (plain rest)
      · rw [splitLast?_append before last]
        exact extensionIff.mpr sidecar

end BackupName

namespace Volume

theorem nodeIff {v : Volume} {l : Location} {n : Node} (inner : l ≠ []) :
    v.node? l = some n ↔ (l, n) ∈ v.nodes := by
  simp only [node?, inner, if_false, Option.map_eq_some_iff]
  constructor
  · rintro ⟨⟨m, n⟩, found, rfl⟩
    obtain rfl : m = l := by simpa using List.find?_some found
    exact List.mem_of_find?_eq_some found
  · intro member
    have some : (v.nodes.find? fun e => e.1 = l).isSome := List.find?_isSome.mpr ⟨_, member, by simp⟩
    obtain ⟨e, found⟩ := Option.isSome_iff_exists.mp some
    have place : e.1 = l := by simpa using List.find?_some found
    have same := List.inj_on_of_nodup_map v.unique (List.mem_of_find?_eq_some found) member place
    exact ⟨e, found, congrArg Prod.snd same⟩

theorem nodeReordered {v u : Volume} (order : u.nodes.Perm v.nodes) : u.node? = v.node? := by
  funext l
  by_cases inner : l = []
  · simp only [node?, inner, if_true]
  · exact Option.ext fun n => by rw [nodeIff inner, nodeIff inner, order.mem_iff]

section Same
variable {v u : Volume} (same : u.node? = v.node?)
include same

theorem walkWithSame {aim : Aim} {jump : Location → List String → Except FileError Location}
    (here : Location) (steps : List String) : walkWith u aim jump here steps = walkWith v aim jump here steps := by
  induction steps generalizing here with
  | nil => rfl
  | cons step steps ih => simp only [walkWith, same, ih]

theorem walkSame (aim : Aim) (links : Nat) : walk u aim links = walk v aim links := by
  funext here steps
  induction links generalizing here steps with
  | zero => exact walkWithSame same here steps
  | succ links ih =>
    have jump : walk u aim links = walk v aim links := funext fun l => funext (ih l)
    simp only [walk, jump]
    exact walkWithSame same here steps

theorem locateSame (here : Location) (aim : Aim) (path : String) :
    u.locate here aim path = v.locate here aim path := by
  simp only [locate, walkSame same]

theorem statusSame (here : Location) (path : String) : u.status here path = v.status here path := by
  simp only [status, find, locateSame same, same]

theorem namesSame {directory : Location} {name : Octets} :
    name ∈ u.names directory ↔ name ∈ v.names directory := by
  simp only [memNames, same]

end Same

theorem statusIff {v : Volume} {here : Location} {path : String} {size : Nat} {modified : Instant} :
    v.status here path = .ok (.file size modified) ↔
      ∃ data, v.file? here path = some data ∧ data.size = size ∧ data.modified = modified := by
  simp only [status, file?, bind, Except.bind]
  cases v.find here path with
  | error e => simp
  | ok found =>
    obtain ⟨l, n⟩ := found
    cases n <;> simp

end Volume

namespace BackupDirectory
open BackupName (Accompanies ofFileName? sidecarIff)
open Volume

/-- A backup that an entry of the directory leads to the file of. It is dated by its name if that has a
date, and otherwise by the file. -/
structure Backs (v : Volume) (here directory : Location) (dir : String) (data : FileData) (a : Artifact) :
    Prop where
  entry : .text a.id ∈ v.names directory
  own : ¬ Accompanies a.id.toList
  file : v.file? here (Path.join dir a.id) = some data
  size : a.size = UInt64.ofNat data.size
  named : ∀ n, ofFileName? a.id = some n → a.created = n.created
  unnamed : ofFileName? a.id = none → a.created = data.modified

section Contents
variable {v u : Volume} {here directory : Location} {dir : String} {as bs : List Artifact} {a : Artifact}

theorem createdIff {fileName : String} {modified t : Instant} : t = created fileName modified ↔
    (∀ n, ofFileName? fileName = some n → t = n.created) ∧ (ofFileName? fileName = none → t = modified) := by
  unfold created
  cases ofFileName? fileName <;> simp

theorem lookIff : look v here dir (.text a.id) = .ok (some a) ↔ ¬ Accompanies a.id.toList ∧
    ∃ data, v.file? here (Path.join dir a.id) = some data ∧ a.size = UInt64.ofNat data.size ∧
      a.created = created a.id data.modified := by
  constructor
  · intro looked
    obtain ⟨_, own, size, modified, found⟩ := lookSome looked
    obtain ⟨data, file, rfl, rfl⟩ := statusIff.mp found
    simp only [look, own, found, ofStatus, Bool.false_eq_true, if_false, Except.ok.injEq,
      Option.some.injEq] at looked
    refine ⟨fun other => ?_, data, file, ?_, ?_⟩
    · cases own.symm.trans (sidecarIff.mpr other)
    · rw [← looked]
    · rw [← looked]
  · rintro ⟨own, data, file, size, dated⟩
    have found := statusIff.mpr ⟨data, file, rfl, rfl⟩
    simp only [look, mt sidecarIff.mp own, found, ofStatus, Bool.false_eq_true, if_false]
    rw [← size, ← dated]

theorem backsIff : (∃ data, Backs v here directory dir data a) ↔
    .text a.id ∈ v.names directory ∧ look v here dir (.text a.id) = .ok (some a) := by
  rw [lookIff]
  constructor
  · rintro ⟨data, backs⟩
    exact ⟨backs.entry, backs.own, data, backs.file, backs.size, createdIff.mpr ⟨backs.named, backs.unnamed⟩⟩
  · rintro ⟨entry, own, data, file, size, dated⟩
    obtain ⟨named, unnamed⟩ := createdIff.mp dated
    exact ⟨data, entry, own, file, size, named, unnamed⟩

theorem listingGiven (opened : v.locate here .node dir = .ok directory)
    (isDirectory : v.node? directory = some .directory)
    (free : ∀ fileName e, .text fileName ∈ v.names directory → ¬ Blocks v here dir fileName e) :
    ∃ as, listing v here dir = .ok as := by
  cases answered : listing v here dir with
  | ok as => exact ⟨as, rfl⟩
  | error cause =>
    obtain ⟨fileName, e, member, blocks, _⟩ := listingBlocked opened isDirectory answered
    exact absurd blocks (free fileName e member)

theorem risingSame (rises : as.Pairwise fun a b => a.id < b.id) (rises' : bs.Pairwise fun a b => a.id < b.id)
    (members : ∀ a, a ∈ as ↔ a ∈ bs) : as = bs := by
  have irrefl : Std.Irrefl fun a b : Artifact => a.id < b.id := ⟨fun a => lt_irrefl a.id⟩
  have antisymm : Std.Antisymm fun a b : Artifact => a.id < b.id :=
    ⟨fun _ _ before after => absurd after (lt_asymm before)⟩
  exact rises.eq_of_mem_iff rises' members

theorem listingReordered (order : u.nodes.Perm v.nodes) (listed : listing v here dir = .ok as) :
    listing u here dir = .ok as := by
  have same := nodeReordered order
  obtain ⟨directory, opened, isDirectory, _⟩ := listingIff.mp listed
  have opened' : u.locate here .node dir = .ok directory := (locateSame same here .node dir).trans opened
  have isDirectory' : u.node? directory = some .directory := same ▸ isDirectory
  have looks (entry : Octets) : look u here dir entry = look v here dir entry := by
    simp only [look, statusSame same]
  have free (fileName : String) (e : FileError) (member : .text fileName ∈ u.names directory) :
      ¬ Blocks u here dir fileName e := by
    simp only [Blocks, statusSame same]
    exact listingFree opened listed fileName e ((namesSame same).mp member)
  obtain ⟨bs, listed'⟩ := listingGiven opened' isDirectory' free
  -- both lists rise, so it is enough that they have the same members
  have members (a : Artifact) : a ∈ bs ↔ a ∈ as := by
    rw [memListingIff listed' opened', memListingIff listed opened, namesSame same, looks]
  rw [listed', risingSame (listingRises listed') (listingRises listed) members]

end Contents

/-- If every entry that is looked at leads somewhere or is missing, the list is that of the backups, each
of them once and in the order of the bytes of their names, in whatever order the entries come. -/
theorem listContents {w : World} {dir : String} {directory : Location}
    (opened : w.volume.locate w.here .node dir = .ok directory)
    (isDirectory : w.volume.node? directory = some .directory)
    (resolves : ∀ fileName e, .text fileName ∈ w.volume.names directory → ¬ Accompanies fileName.toList →
      w.volume.status w.here (Path.join dir fileName) = .error e → e = .noEntry) :
    ∃ as, ((list dir).run w).1 = .ok as ∧
      (as.Pairwise fun a b => (Octets.text a.id).toBytes < (Octets.text b.id).toBytes) ∧
      (∀ a, a ∈ as ↔ ∃ data, Backs w.volume w.here directory dir data a) ∧
      ∀ v : Volume, v.nodes.Perm w.volume.nodes → ((list dir).run { w with volume := v }).1 = .ok as := by
  have free (fileName : String) (e : FileError) (member : .text fileName ∈ w.volume.names directory) :
      ¬ Blocks w.volume w.here dir fileName e := by
    rintro ⟨own, found, other⟩
    have accompanies : ¬ Accompanies fileName.toList := by simp [← sidecarIff, own]
    exact other (resolves fileName e member accompanies found)
  obtain ⟨as, listed⟩ := listingGiven opened isDirectory free
  refine ⟨as, ?_, ?_, fun a => ?_, fun v order => ?_⟩
  · rw [(listEnd w dir).1, listed]
  · exact (listingRises listed).imp fun before => Octets.bytesBefore.mpr before
  · rw [memListingIff listed opened, backsIff]
  · rw [(listEnd { w with volume := v } dir).1]
    exact listingReordered order listed

theorem listContentsMixed :
    let dump (second : Int) (inside : Instant.Admissible second 0) : Node :=
      .file ⟨.text "dump", 0, ⟨second, 0, inside⟩⟩
    let directory : Location := [.text "backups"]
    let named : Location × Node :=
      (directory ++ [.text "backup_mysql_shop_20240102_000000.sql"], dump 7 (by decide))
    let plain : Location × Node := (directory ++ [.text "weekly"], dump 9 (by decide))
    let others : List (Location × Node) := [(directory, .directory),
      (directory ++ [.text "latest"], .link "backup_mysql_shop_20240102_000000.sql"),
      (directory ++ [.text "old"], .directory), (directory ++ [.text "gone"], .link "nowhere"),
      (directory ++ [.text "weekly.TMP"], dump 9 (by decide)), (directory ++ [.raw [255]], dump 9 (by decide))]
    let v : Volume := ⟨plain :: others ++ [named], by decide⟩
    let ordered : Volume := ⟨named :: others ++ [plain], by decide⟩
    let w : World := ⟨v, [], ⟨0, 0, by decide⟩, [], "", []⟩
    let as : List Artifact := [⟨"backup_mysql_shop_20240102_000000.sql", 4, ⟨1704153600, 0, by decide⟩⟩,
      ⟨"latest", 4, ⟨7, 0, by decide⟩⟩, ⟨"weekly", 4, ⟨9, 0, by decide⟩⟩]
    ((list "backups").run { w with volume := ordered }).1 = .ok as ∧ ((list "backups").run w).1 = .ok as ∧
      ∀ a, a ∈ as ↔ ∃ data, Backs v [] directory "backups" data a := by
  intro dump directory named plain others v ordered w as
  have all : lookAll v [] "backups" (v.names directory) = .ok as.reverse := by decide +kernel
  have resolves : ∀ fileName e, .text fileName ∈ v.names directory → ¬ Accompanies fileName.toList →
      v.status [] (Path.join "backups" fileName) = .error e → e = .noEntry := by
    intro fileName e member own found
    by_contra other
    obtain ⟨_, looked⟩ := (lookAllIff.mp all).1 _ member
    have listed : BackupName.isSidecar fileName = false := by simpa [← sidecarIff] using own
    exact lookedFree looked ⟨listed, found, other⟩
  have opened : v.locate [] .node "backups" = .ok directory := by decide +kernel
  have isDirectory : v.node? directory = some .directory := by decide +kernel
  obtain ⟨bs, answer, _, members, anyOrder⟩ := listContents (w := w) opened isDirectory resolves
  have looked : lookAll ordered [] "backups" (ordered.names directory) = .ok as := by decide +kernel
  have sorted : ((list "backups").run { w with volume := ordered }).1 = .ok as :=
    listAnswers (by decide +kernel) looked (by decide)
  have order : ordered.nodes.Perm v.nodes := by decide +kernel
  obtain rfl : bs = as := Except.ok.inj ((anyOrder ordered order).symm.trans sorted)
  exact ⟨sorted, answer, members⟩

end BackupDirectory
end BackupRotation
