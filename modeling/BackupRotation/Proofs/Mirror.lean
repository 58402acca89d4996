import BackupRotation.Proofs.EntryDeletion
import BackupRotation.Proofs.Schedules
/-! A directory of plain backups and a store in memory that was filled from its list answer alike, however
often they are listed and whatever is deleted, one by one or in prunings: what is left of the store is
always what the directory would list. -/
namespace BackupRotation

/-- A request to a holder of backups. The deletions of a pruning take effect in the order of the request,
however many of them are under way. -/
inductive Query where
  | list
  | delete (id : String)
  | prune (as : List Artifact)
  deriving DecidableEq, Repr

inductive Reply where
  | listed (result : Except StorageError (List Artifact))
  | deleted (result : Except StorageError Unit)
  | pruned (report : PruneReport)
  deriving DecidableEq, Repr

def Query.names : Query → List String
  | list => []
  | delete id => [id]
  | prune as => as.map Artifact.id

/-- A reply in which nothing failed, unless a name was not there any more. -/
inductive Query.Answered : Query → Reply → Prop where
  | listed (as : List Artifact) : Answered .list (.listed (.ok as))
  | deleted (id : String) : Answered (.delete id) (.deleted (.ok ()))
  | absent (id : String) : Answered (.delete id) (.deleted (.error (.notFound id)))
  | pruned (as : List Artifact) {report : PruneReport}
      (absent : ∀ f ∈ report.failed, f.cause = .notFound f.id) : Answered (.prune as) (.pruned report)

namespace Store

def reply (s : Store) : Query → Store × Reply
  | .list => (s, .listed (.ok s.artifacts))
  | .delete id => ((s.delete id).1, .deleted (s.delete id).2)
  | .prune as => ((s.prune as).1, .pruned (s.prune as).2)

def replies (s : Store) : List Query → List Reply
  | [] => []
  | q :: qs => (s.reply q).2 :: replies (s.reply q).1 qs

section Willing
variable {s : Store}

theorem willingAnswer (willing : s.failing = []) (id : String) :
    (s.delete id).2 = .ok () ∨ (s.delete id).2 = .error (.notFound id) := by
  rw [deleteAnswer, willing]
  split_ifs with failing stored
  · cases failing
  · exact .inl rfl
  · exact .inr rfl

theorem willingDelete (willing : s.failing = []) (id : String) : (s.delete id).1.failing = [] := by
  rw [deleteLeft]
  exact willing

theorem willingFailures (willing : s.failing = []) (as : List Artifact) :
    ∀ f ∈ (s.prune as).2.failed, f.cause = .notFound f.id := by
  have outcomes : ∀ o ∈ (s.deleteAll as).2, ∀ e, o.failure = some e → e = .notFound o.artifact.id := by
    induction as generalizing s with
    | nil => simp [deleteAll]
    | cons a as ih =>
      simp only [deleteAll, List.forall_mem_cons]
      refine ⟨fun e failed => ?_, ih (willingDelete willing a.id)⟩
      rcases willingAnswer willing a.id with gone | absent
      · simp [gone, Outcome.of] at failed
      · simp only [absent, Outcome.of, Option.some.injEq] at failed ⊢
        exact failed.symm
  intro f member
  obtain ⟨o, inside, failed⟩ := List.mem_filterMap.mp member
  obtain ⟨e, cause, rfl⟩ := Option.map_eq_some_iff.mp failed
  exact outcomes o inside e cause

theorem willingReply (willing : s.failing = []) (q : Query) :
    q.Answered (s.reply q).2 ∧ (s.reply q).1.failing = [] := by
  cases q with
  | list => exact ⟨.listed s.artifacts, willing⟩
  | delete id =>
    refine ⟨?_, willingDelete willing id⟩
    simp only [reply]
    rcases willingAnswer willing id with gone | absent
    · rw [gone]
      exact .deleted id
    · rw [absent]
      exact .absent id
  | prune as =>
    exact ⟨.pruned as (willingFailures willing as), (deleteAllFailing s as).trans willing⟩

theorem willingReplies (willing : s.failing = []) (qs : List Query) :
    List.Forall₂ Query.Answered qs (s.replies qs) := by
  induction qs generalizing s with
  | nil => exact .nil
  | cons q qs ih =>
    obtain ⟨answered, still⟩ := willingReply willing q
    exact .cons answered (ih still)

end Willing

end Store

namespace BackupDirectory
open Volume
open Program (leavesBind leavesEnd leavesPure leavesTellAll)

def reply (dir : String) : Query → Program Reply
  | .list => return .listed (← list dir)
  | .delete id => return .deleted (← delete dir id)
  | .prune as => return .pruned (← prune dir as)

def replies (dir : String) : List Query → Program (List Reply)
  | [] => return []
  | q :: qs => do
    let r ← reply dir q
    let rs ← replies dir qs
    return r :: rs

/-- `dir` leads to a directory that holds regular files only, under names of backups. -/
structure Plain (v : Volume) (here : Location) (dir : String) (directory : Location) : Prop where
  opened : v.locate here .node dir = .ok directory
  isDirectory : v.node? directory = some .directory
  files : ∀ entry ∈ v.names directory, ∃ name data, entry = .text name ∧
    v.node? (directory ++ [.text name]) = some (.file data) ∧
    BareName name ∧ '\\' ∉ name.toList ∧ BackupName.isSidecar name = false

section Files
variable {v : Volume} {here directory : Location} {dir name : String} {data : FileData}
  {as gone : List Artifact}

theorem joinedFilled (opened : v.locate here .node dir = .ok directory) (bare : BareName name) :
    Path.join dir name ≠ "" := by
  obtain ⟨before, joined, _⟩ := joinFile bare (pathFilled (locateIff.mp opened).1)
  intro empty
  simp [empty] at joined

theorem filledChecked {path : String} {e : FileError} (filled : path ≠ "")
    (failed : checkPath path = .error e) : e ≠ .noEntry := by
  rintro rfl
  unfold checkPath at failed
  split_ifs at failed <;> simp_all

theorem plainStatus (opened : v.locate here .node dir = .ok directory)
    (isDirectory : v.node? directory = some .directory)
    (file : v.node? (directory ++ [.text name]) = some (.file data)) (bare : BareName name) :
    v.status here (Path.join dir name) = .ok (.file data.size data.modified) ∨
      ∃ e, e ≠ .noEntry ∧ v.status here (Path.join dir name) = .error e := by
  have filled := pathFilled (locateIff.mp opened).1
  simp only [status, find, locate, originJoin here bare filled, routeJoin bare filled]
  cases checked : checkPath (Path.join dir name) with
  | error e => exact .inr ⟨e, filledChecked (joinedFilled opened bare) checked, rfl⟩
  | ok u =>
    obtain ⟨left, _, onwards⟩ := walkOnwards (walkSteps opened)
    simp only [bind, Except.bind, onwards, walkTurn]
    by_cases short : name.utf8ByteSize ≤ nameLimit
    · have plain : ∀ target, v.node? (directory ++ [.text name]) ≠ some (.link target) := by
        simp [file]
      simp [turnPlain bare.1 short isDirectory plain, walkNil, file]
    · exact .inr ⟨.nameTooLong, by simp, by simp [turnLong bare.1 isDirectory (Nat.not_le.mp short)]⟩

theorem plainListed (plain : Plain v here dir directory) (listed : listing v here dir = .ok as)
    (entry : .text name ∈ v.names directory) :
    (∃ a ∈ as, a.id = name) ∧ isFileName name = true ∧
      ∃ data, v.node? (directory ++ [.text name]) = some (.file data) := by
  obtain ⟨same, data, text, file, bare, whole, backup⟩ := plain.files _ entry
  obtain rfl : name = same := by simpa using text
  obtain ⟨other, there, _, all, rfl⟩ := listingIff.mp listed
  obtain rfl : directory = other := Except.ok.inj (plain.opened.symm.trans there)
  obtain ⟨found, looked⟩ := all _ entry
  have backupFound : ∃ a, found = some a ∧ a.id = name := by
    simp only [look, backup, Bool.false_eq_true, if_false] at looked
    rcases plainStatus plain.opened plain.isDirectory file bare with status | ⟨e, other, status⟩
    · rw [status] at looked
      exact ⟨_, (Except.ok.inj looked).symm, rfl⟩
    · rw [status] at looked
      cases e <;> simp [ofStatus] at looked other
  obtain ⟨a, rfl, rfl⟩ := backupFound
  have checked := (listedEntry plain.opened plain.isDirectory looked bare).2.1
  have filled := pathFilled (locateIff.mp plain.opened).1
  refine ⟨⟨a, ?_, rfl⟩, (fileNameIff bare (namedWhole checked filled bare)).mpr whole, data, file⟩
  rw [inOrder, List.mem_mergeSort, List.mem_filterMap]
  exact ⟨_, entry, by simp [shown, looked]⟩

theorem plainDeletable (plain : Plain v here dir directory) (listed : listing v here dir = .ok as)
    (named : ∀ d ∈ gone, .text d.id ∈ v.names directory) : Deletable v directory dir gone := by
  intro d member bare
  obtain ⟨⟨a, inside, same⟩, _⟩ := plainListed plain listed (named d member)
  rw [← same] at bare ⊢
  obtain ⟨entry, checked, _⟩ :=
    listedEntry plain.opened plain.isDirectory (memListing listed inside) (bareFileName bare)
  exact ⟨entry, checked⟩

theorem listedPlain (plain : Plain v here dir directory) (listed : listing v here dir = .ok as)
    {a : Artifact} (member : a ∈ as) : .text a.id ∈ v.names directory := by
  obtain ⟨other, there, _, _, rfl⟩ := listingIff.mp listed
  obtain rfl : directory = other := Except.ok.inj (plain.opened.symm.trans there)
  rw [inOrder, List.mem_mergeSort, List.mem_filterMap] at member
  obtain ⟨entry, inside, found⟩ := member
  exact shownName found ▸ inside

/-- What a store filled from the list still holds when `gone` were deleted. -/
def remaining (as gone : List Artifact) : Store :=
  ⟨as.filter fun a => a.id ∉ gone.map Artifact.id, []⟩

theorem listingGone (plain : Plain v here dir directory) (listed : listing v here dir = .ok as)
    (named : ∀ d ∈ gone, .text d.id ∈ v.names directory) :
    listing (v.clear (places directory gone)) here dir = .ok (remaining as gone).artifacts := by
  have deletable := plainDeletable plain listed named
  rw [listingClear listed deletable plain.opened plain.isDirectory]
  refine congrArg _ (List.filter_congr fun a member => decide_eq_decide.mpr ?_)
  obtain ⟨_, bare, data, file⟩ := plainListed plain listed (listedPlain plain listed member)
  have looked := memListing listed member
  obtain ⟨entry, checked, onWay⟩ :=
    listedEntry plain.opened plain.isDirectory looked (bareFileName bare)
  constructor
  · intro spared taken
    obtain ⟨d, inside, same⟩ := List.mem_map.mp taken
    have place : directory ++ [.text a.id] ∈ places directory gone :=
      memPlaces.mpr ⟨d, inside, same ▸ bare, by rw [same]⟩
    exact (sparedIff plain.opened plain.isDirectory deletable).mp spared _ onWay place
  · intro untouched
    have located : v.locate here .name (Path.join dir a.id) = .ok (directory ++ [.text a.id]) := by
      obtain ⟨start, way⟩ := joinWay here (bareFileName bare) dir
      rw [locateIff, start, way]
      exact ⟨checked, walkName (bareFileName bare).1 entry.short plain.isDirectory
        (walkSteps plain.opened)⟩
    refine fileSpared plain.opened plain.isDirectory deletable (bareFileName bare) looked ?_ located file
    exact fun d inside same => untouched (List.mem_map.mpr ⟨d, inside, same⟩)

theorem remainingDelete (gone : List Artifact) {d : Artifact} (bare : isFileName d.id = true)
    (stored : ∃ a ∈ as, a.id = d.id) :
    (remaining as gone).delete d.id =
      (remaining as (gone ++ [d]), deletion directory gone d.id) := by
  have place : directory ++ [.text d.id] ∈ places directory gone ↔ d.id ∈ gone.map Artifact.id := by
    rw [memPlaces, List.mem_map]
    constructor
    · rintro ⟨e, inside, _, same⟩
      exact ⟨e, inside, by simpa using same.symm⟩
    · rintro ⟨e, inside, same⟩
      exact ⟨e, inside, same ▸ bare, by rw [same]⟩
  have held : d.id ∈ (remaining as gone).ids ↔ d.id ∉ gone.map Artifact.id := by
    simp only [remaining, Store.ids, List.mem_map, List.mem_filter, decide_eq_true_eq]
    constructor
    · rintro ⟨a, ⟨_, untouched⟩, same⟩
      exact same ▸ untouched
    · intro untouched
      obtain ⟨a, inside, same⟩ := stored
      exact ⟨a, ⟨inside, same ▸ untouched⟩, same⟩
  refine Prod.ext ?_ ?_
  · rw [Store.deleteLeft, remaining, remaining]
    simp only [List.filter_filter]
    congr 1
    refine List.filter_congr fun a _ => ?_
    rw [← Bool.decide_and, decide_eq_decide, List.map_append, List.mem_append, not_or]
    simp [and_comm]
  · rw [Store.deleteAnswer, deletion]
    simp only [bare, if_true, place, held]
    by_cases taken : d.id ∈ gone.map Artifact.id
    · simp [taken, remaining]
    · simp [taken, remaining]

theorem remainingDeleteAll (gone : List Artifact) {ds : List Artifact}
    (bare : ∀ d ∈ ds, isFileName d.id = true) (stored : ∀ d ∈ ds, ∃ a ∈ as, a.id = d.id) :
    (remaining as gone).deleteAll ds = (remaining as (gone ++ ds), outcomes directory gone ds) := by
  induction ds generalizing gone with
  | nil => rw [List.append_nil]; rfl
  | cons d ds ih =>
    obtain ⟨first, bare⟩ := List.forall_mem_cons.mp bare
    obtain ⟨there, stored⟩ := List.forall_mem_cons.mp stored
    have step : (remaining as gone).delete d.id =
        (remaining as (gone ++ [d]), deletion directory gone d.id) :=
      remainingDelete gone first there
    simp only [Store.deleteAll, step, ih (gone ++ [d]) bare stored, List.append_assoc,
      List.singleton_append, outcomes]

end Files

section Runs
variable {v : Volume} {here directory : Location} {dir : String} {as gone : List Artifact} {w : World}

theorem replyMirrored (plain : Plain v here dir directory) (listed : listing v here dir = .ok as)
    (named : ∀ d ∈ gone, .text d.id ∈ v.names directory) {q : Query}
    (asked : ∀ id ∈ q.names, .text id ∈ v.names directory)
    (volume : w.volume = v.clear (places directory gone)) (start : w.here = here) :
    ∃ more, (∀ d ∈ more, .text d.id ∈ v.names directory) ∧
      (reply dir q).Leaves w ((remaining as gone).reply q).2
        (v.clear (places directory (gone ++ more))) ∧
      ((remaining as gone).reply q).1 = remaining as (gone ++ more) := by
  cases q with
  | list =>
    refine ⟨[], by simp, ?_, by rw [List.append_nil]; rfl⟩
    rw [List.append_nil, ← volume]
    have same : listing w.volume w.here dir = .ok (remaining as gone).artifacts := by
      rw [volume, start]
      exact listingGone plain listed named
    refine leavesBind listLeaves fun _ => ?_
    rw [same]
    exact leavesPure _
  | delete id =>
    have entry := asked id (List.mem_singleton_self id)
    obtain ⟨⟨d, inside, rfl⟩, bare, _⟩ := plainListed plain listed entry
    have all : ∀ e ∈ gone ++ [d], .text e.id ∈ v.names directory :=
      List.forall_mem_append.mpr ⟨named, List.forall_mem_singleton.mpr entry⟩
    have deleted := deleteLeaves plain.opened plain.isDirectory
      (plainDeletable plain listed all) volume start
    have held : (remaining as gone).delete d.id =
        (remaining as (gone ++ [d]), deletion directory gone d.id) :=
      remainingDelete gone bare ⟨d, inside, rfl⟩
    refine ⟨[d], List.forall_mem_singleton.mpr entry, ?_, congrArg Prod.fst held⟩
    simp only [Store.reply, held]
    exact leavesBind deleted fun _ => leavesPure _
  | prune ds =>
    have entries : ∀ d ∈ ds, .text d.id ∈ v.names directory :=
      fun d member => asked d.id (List.mem_map_of_mem member)
    have deletable := plainDeletable plain listed (List.forall_mem_append.mpr ⟨named, entries⟩)
    have held : (remaining as gone).deleteAll ds =
        (remaining as (gone ++ ds), outcomes directory gone ds) :=
      remainingDeleteAll gone (fun d member => (plainListed plain listed (entries d member)).2.1)
        fun d member => (plainListed plain listed (entries d member)).1
    refine ⟨ds, entries, ?_, ?_⟩
    · simp only [Store.reply, Store.prune, held]
      refine leavesBind ?_ fun _ => leavesPure _
      refine leavesBind (deleteAllLeaves plain.opened plain.isDirectory deletable volume start) fun _ => ?_
      exact leavesBind (leavesTellAll _) fun _ => leavesPure _
    · simp only [Store.reply, Store.prune, held]

theorem repliesMirrored (plain : Plain v here dir directory) (listed : listing v here dir = .ok as)
    (named : ∀ d ∈ gone, .text d.id ∈ v.names directory) {queries : List Query}
    (asked : ∀ q ∈ queries, ∀ id ∈ q.names, .text id ∈ v.names directory)
    (volume : w.volume = v.clear (places directory gone)) (start : w.here = here) :
    ((replies dir queries).run w).1 = (remaining as gone).replies queries := by
  induction queries generalizing gone w with
  | nil => rfl
  | cons q qs ih =>
    obtain ⟨first, rest⟩ := List.forall_mem_cons.mp asked
    obtain ⟨more, new, leaves, left⟩ := replyMirrored plain listed named first volume start
    obtain ⟨answer, volume', start'⟩ := leavesEnd leaves
    have later := ih (List.forall_mem_append.mpr ⟨named, new⟩) rest volume' (start'.trans start)
    simp only [replies, Program.run_bind, Program.run_pure, Store.replies, answer, left, later]

end Runs

/-- Whatever is asked of them, a directory of plain backups and a store filled from its list give the
same replies, and what is not there any more is all that ever fails. -/
theorem directoryMirrored {w : World} {dir : String} {directory : Location} {as : List Artifact}
    (plain : Plain w.volume w.here dir directory) (listed : ((list dir).run w).1 = .ok as)
    {queries : List Query}
    (asked : ∀ q ∈ queries, ∀ id ∈ q.names, .text id ∈ w.volume.names directory) :
    let answered := ((replies dir queries).run ((list dir).run w).2).1
    answered = (Store.ofArtifacts as).replies queries ∧
      List.Forall₂ Query.Answered queries answered := by
  intro answered
  obtain ⟨answer, volume, start⟩ := listEnd w dir
  rw [answer] at listed
  have whole : remaining as [] = Store.ofArtifacts as := by simp [remaining, Store.ofArtifacts]
  have same : answered = (Store.ofArtifacts as).replies queries := by
    rw [← whole]
    exact repliesMirrored plain listed (by simp) asked volume start
  exact ⟨same, same ▸ Store.willingReplies rfl queries⟩

theorem directoryMirroredTwice :
    let dump : Node := .file ⟨.text "dump", 0, ⟨0, 0, by decide⟩⟩
    let v : Volume := ⟨[([.text "backups"], .directory), ([.text "backups", .text "a"], dump),
      ([.text "backups", .text "b"], dump), ([.text "backups", .text "c"], dump)], by decide⟩
    let w : World := ⟨v, [], ⟨0, 0, by decide⟩, [], "", []⟩
    let a (id : String) : Artifact := ⟨id, 4, ⟨0, 0, by decide⟩⟩
    let queries := [.delete "b", .prune [a "c", ⟨"b", 9, ⟨0, 0, by decide⟩⟩, a "c"], .list, .delete "b"]
    Plain v [] "backups" [.text "backups"] ∧
      ((list "backups").run w).1 = .ok [a "a", a "b", a "c"] ∧
      ((replies "backups" queries).run ((list "backups").run w).2).1 =
        [.deleted (.ok ()), .pruned ⟨["c"], [⟨"b", .notFound "b"⟩, ⟨"c", .notFound "c"⟩], 4⟩,
          .listed (.ok [a "a"]), .deleted (.error (.notFound "b"))] := by
  intro dump v w a queries
  have names : v.names [.text "backups"] = [.text "a", .text "b", .text "c"] := by decide +kernel
  have plain : Plain v [] "backups" [.text "backups"] := by
    refine ⟨by decide +kernel, by decide +kernel, ?_⟩
    rw [names]
    simp only [List.forall_mem_cons]
    exact ⟨⟨"a", _, rfl, rfl, by decide +kernel⟩, ⟨"b", _, rfl, rfl, by decide +kernel⟩,
      ⟨"c", _, rfl, rfl, by decide +kernel⟩, by simp⟩
  have looked : lookAll v [] "backups" [.text "a", .text "b", .text "c"] =
      .ok [a "a", a "b", a "c"] := by decide +kernel
  have listed : ((list "backups").run w).1 = .ok [a "a", a "b", a "c"] :=
    listAnswers (by decide +kernel) looked (by decide)
  have asked : ∀ q ∈ queries, ∀ id ∈ q.names, .text id ∈ v.names [.text "backups"] := by
    decide +kernel
  refine ⟨plain, listed, ?_⟩
  rw [(directoryMirrored plain listed asked).1]
  decide +kernel

end BackupDirectory
end BackupRotation
