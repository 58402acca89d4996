import BackupRotation.Proofs.Parents
/-! A file that is written beside the one that a path leads to, and then given its name. Until then the
path leads to what it did before; from then on it leads to the file written. -/
namespace BackupRotation
namespace Volume

/-- A text can be written at the one path without a change at the other, and only a file written there
comes to the other by a renaming. -/
structure Beside (v : Volume) (here : Location) (temporary path : String) : Prop where
  written : ∀ {l data}, v.locate here .file temporary = .ok l → v.node? l ≠ some .directory →
    (v.insert l (.file data)).file? here path = v.file? here path
  renamed : ∀ {l data v'}, v.locate here .file temporary = .ok l → v.node? l ≠ some .directory →
    (v.insert l (.file data)).rename here temporary path = .ok v' → v'.file? here path = some data

section Names
variable {v v' : Volume} {here l : Location} {source target path : String}

theorem writtenTo {now : Instant} {text : String} (written : v.writeText here now path text = .ok v') :
    ∃ l, v.locate here .file path = .ok l ∧ v.node? l ≠ some .directory ∧
      v' = v.insert l (.file ⟨.text text, 0, now⟩) := by
  simp only [writeText, bind, Except.bind] at written
  split at written
  · cases written
  · rename_i l located
    split at written
    · cases written
    · rename_i plain
      exact ⟨l, located, plain, (Except.ok.inj written).symm⟩

theorem nameLocated (located : v.locateName here path = .ok l) : checkPath path = .ok () ∧
    ∃ before last, steps path = before ++ [last] ∧ last ≠ "." ∧ last ≠ ".." ∧
      walk v .name linkLimit (origin here path) (steps path) = .ok l := by
  simp only [locateName, locateBare, bind, Except.bind] at located
  cases checked : checkPath path with
  | error e => simp [checked] at located
  | ok u =>
    simp only [checked] at located
    rcases List.eq_nil_or_concat (steps path) with nothing | ⟨before, last, ends⟩
    · simp [nothing] at located
    · rw [List.concat_eq_append] at ends
      rw [ends, List.getLast?_concat] at located
      rw [ends]
      cases walked : walk v .name linkLimit (origin here path) (before ++ [last]) with
      | error e => simp [walked] at located
      | ok m =>
        simp only [walked] at located
        split at located
        · cases located
        · rename_i name
          rw [not_or] at name
          exact ⟨rfl, before, last, rfl, name.1, name.2, by rw [Except.ok.inj located]⟩

theorem renamedAt (renamed : v.rename here source target = .ok v') :
    ∃ l m n, v.locateName here source = .ok l ∧ v.locateName here target = .ok m ∧
      v.node? l = some n ∧ n ≠ .directory ∧ endsInSlash target = false ∧
      v.node? m ≠ some .directory ∧ v' = if l = m then v else (v.erase l).insert m n := by
  simp only [rename, bind, Except.bind] at renamed
  split at renamed
  · cases renamed
  · rename_i l located
    split at renamed
    · cases renamed
    · rename_i m given
      split at renamed
      · cases renamed
      · cases renamed
      · rename_i n plain found
        split at renamed
        · cases renamed
        · rename_i slash
          have open' : endsInSlash target = false := by
            simp only [Bool.or_eq_true, not_or, Bool.not_eq_true] at slash
            exact slash.2
          split at renamed
          · cases renamed
          · rename_i other
            refine ⟨l, m, n, located, given, found, plain, open', other, ?_⟩
            split at renamed
            · rename_i same
              rw [if_pos same, Except.ok.inj renamed]
            · rename_i apart
              rw [if_neg apart, Except.ok.inj renamed]

theorem stepsFilled : "" ∉ steps path := by
  simp only [steps, List.mem_map, List.mem_filter, decide_eq_true_eq]
  rintro ⟨part, ⟨_, some⟩, same⟩
  exact some (by simpa using congrArg String.toList same)

end Names

section Beside
variable {v : Volume} {here : Location} {temporary path : String} {base : List String} {last : String}

theorem nowhereSteps (nowhere : route path = []) : steps path = [] := by
  unfold route at nowhere
  split at nowhere
  · simp at nowhere
  · exact nowhere

/-- A path that leads to directories only leads to no file. -/
theorem fileNone (leads : ∀ l, checkPath path = .ok () →
    walk v .node linkLimit (origin here path) (route path) = .ok l → v.node? l = some .directory) :
    v.file? here path = none := by
  by_contra found
  obtain ⟨data, found⟩ := Option.ne_none_iff_exists'.mp found
  obtain ⟨checked, l, walked, file⟩ := fileIff.mp found
  cases (leads l checked walked).symm.trans file

theorem fileNowhere (nowhere : route path = []) : v.file? here path = none := by
  refine fileNone fun l checked walked => ?_
  rw [nowhere, walkNil, Except.ok.injEq, originRoot checked (nowhereSteps nowhere)] at walked
  exact walked ▸ rfl

theorem fileVoid (ends : route path = base ++ [last]) (void : last = "" ∨ last = ".") :
    v.file? here path = none :=
  fileNone fun _ _ walked => walkVoid void (ends ▸ walked)

theorem fileUp (rooted : v.Rooted) (ends : route path = base ++ [".."]) : v.file? here path = none :=
  fileNone fun _ _ walked => walkUp rooted (ends ▸ walked)

theorem besideNowhere (nowhere : route path = []) : Beside v here temporary path := by
  constructor
  · intro l data _ _
    rw [fileNowhere nowhere, fileNowhere nowhere]
  · intro l data v' _ _ renamed
    obtain ⟨_, m, _, _, given, _⟩ := renamedAt renamed
    obtain ⟨_, before, name, steps', _⟩ := nameLocated given
    rw [nowhereSteps nowhere] at steps'
    simp at steps'

theorem besideVoid (ends : route path = base ++ [last]) (void : last = "" ∨ last = ".") :
    Beside v here temporary path := by
  constructor
  · intro l data _ _
    rw [fileVoid ends void, fileVoid ends void]
  · intro l data v' _ _ renamed
    obtain ⟨_, m, _, _, given, _, _, open', _⟩ := renamedAt renamed
    obtain ⟨_, before, name, steps', dot, _⟩ := nameLocated given
    rw [route, open', steps'] at ends
    obtain ⟨_, same⟩ := List.append_inj' ends rfl
    obtain rfl := List.singleton_inj.mp same
    exfalso
    rcases void with rfl | rfl
    · exact stepsFilled (steps' ▸ List.mem_append_right before (List.mem_singleton_self ""))
    · exact dot rfl

theorem besideUp (rooted : v.Rooted) (ends : route temporary = base ++ [".."]) :
    Beside v here temporary path := by
  have nowhere {l : Location} (located : v.locate here .file temporary = .ok l) :
      v.node? l = some .directory := by
    have walked := walkAny (by simp) (locateIff.mp located).2
    rw [ends] at walked
    exact walkUp rooted walked
  constructor
  · intro l data located plain
    exact absurd (nowhere located) plain
  · intro l data v' located plain _
    exact absurd (nowhere located) plain

section Named
variable {name : String} {directory l : Location} {data : FileData} (ends : route path = base ++ [name])
  (proper : name ≠ "" ∧ name ≠ "." ∧ name ≠ "..")

section Single
variable (unlinked : Unlinked v here path)
include ends proper unlinked

theorem fileNamed (first : walk v .node linkLimit (origin here path) base = .ok directory) :
    v.file? here path = some data ↔ checkPath path = .ok () ∧ v.node? directory = some .directory ∧
      name.utf8ByteSize ≤ nameLimit ∧ v.node? (directory ++ [.text name]) = some (.file data) := by
  rw [fileIff]
  constructor
  · rintro ⟨checked, l, walked, file⟩
    obtain ⟨there, short, rfl⟩ := (unlinkedWalk ends proper unlinked checked first).mp walked
    exact ⟨checked, there, short, file⟩
  · rintro ⟨checked, there, short, file⟩
    exact ⟨checked, _, (unlinkedWalk ends proper unlinked checked first).mpr ⟨there, short, rfl⟩, file⟩

theorem writtenAt (located : v.locate here .file path = .ok l) :
    ∃ directory, walk v .node linkLimit (origin here path) base = .ok directory ∧
      v.node? directory = some .directory ∧ l = directory ++ [.text name] ∧
        ∀ target, v.node? l ≠ some (.link target) := by
  obtain ⟨checked, reached⟩ := locateIff.mp located
  have walked := walkAny (by simp) reached
  obtain ⟨directory, first, there⟩ := walkLast (ends ▸ walked)
  obtain ⟨_, short, rfl⟩ := (unlinkedWalk ends proper unlinked checked first).mp walked
  exact ⟨directory, first, there, rfl, unlinkedNode ends proper unlinked checked first there short⟩

end Single

include ends proper in
theorem unlinkedKept {u : Volume} (keeps : Keeps v u) (unlinked : Unlinked v here path)
    (first : walk v .node linkLimit (origin here path) base = .ok directory)
    (there : v.node? directory = some .directory) : Unlinked u here path := by
  intro m target located link
  obtain ⟨checked, walked⟩ := locateIff.mp located
  rw [ends] at walked
  obtain ⟨above, first', _, short, rfl⟩ := walkNamed proper walked
  obtain rfl := walkUnique (walkKept keeps first) first'
  exact unlinkedNode ends proper unlinked checked first there short target (keeps.link.mpr link)

include ends proper in
theorem nameAt (located : v.locateName here path = .ok l) : checkPath path = .ok () ∧
    ∃ directory, walk v .node linkLimit (origin here path) base = .ok directory ∧
      name.utf8ByteSize ≤ nameLimit ∧ l = directory ++ [.text name] := by
  obtain ⟨checked, _, _, _, _, _, walked⟩ := nameLocated located
  rw [(Path.namedSteps ends ⟨proper.1, proper.2.1⟩).2] at walked
  obtain ⟨directory, first, _, short, rfl⟩ := walkNamed proper walked
  exact ⟨checked, directory, first, short, rfl⟩

section Both
variable (ends' : route temporary = base ++ [last]) (proper' : last ≠ "" ∧ last ≠ "." ∧ last ≠ "..")
  (apart : last ≠ name) (root : origin here temporary = origin here path)
  (unlinked : Unlinked v here path)
include ends proper ends' proper' apart root unlinked

theorem renamedOver {v' : Volume} (first : walk v .node linkLimit (origin here path) base = .ok directory)
    (there : v.node? directory = some .directory)
    (new : v.node? (directory ++ [.text last]) = some (.file data))
    (renamed : v.rename here temporary path = .ok v') : v'.file? here path = some data := by
  obtain ⟨_, _, n, source, target, found, _, _, free, rfl⟩ := renamedAt renamed
  obtain ⟨_, directory', first', _, rfl⟩ := nameAt ends' proper' source
  obtain ⟨checked, directory'', first'', short, rfl⟩ := nameAt ends proper target
  rw [root] at first'
  obtain rfl := walkUnique first first'
  obtain rfl := walkUnique first first''
  obtain rfl := Option.some.inj (new.symm.trans found)
  have places : directory ++ [.text name] ≠ directory ++ [.text last] := by simpa using Ne.symm apart
  have stays : (v.erase (directory ++ [.text last])).node? (directory ++ [.text name]) =
      v.node? (directory ++ [.text name]) := by
    rw [node?_erase _ _ _ (by simp), if_neg places]
  have link := unlinkedNode ends proper unlinked checked first there short
  have keeps : Keeps v ((v.erase (directory ++ [.text last])).insert (directory ++ [.text name])
      (.file data)) :=
    keepsTrans (keepsErased (by simp) new) (keepsWritten (by simp) (stays ▸ link) (stays ▸ free))
  rw [if_neg (Ne.symm places), fileNamed ends proper (unlinkedKept ends proper keeps unlinked first there)
    (walkKept keeps first)]
  exact ⟨checked, keeps.directory there, short, by rw [node?_insert _ _ _ _ (by simp), if_pos rfl]⟩

/-- Beside a path that ends in a name, under another name in the same directory, there is room to write,
unless links lie in the way. -/
theorem besideNamed (unlinked' : Unlinked v here temporary) : Beside v here temporary path := by
  constructor
  · intro l data located plain
    obtain ⟨directory, first, there, rfl, link⟩ := writtenAt ends' proper' unlinked' located
    rw [root] at first
    have keeps : Keeps v (v.insert (directory ++ [.text last]) (.file data)) :=
      keepsWritten (by simp) link plain
    have spared : (v.insert (directory ++ [.text last]) (.file data)).node? (directory ++ [.text name]) =
        v.node? (directory ++ [.text name]) := by
      rw [node?_insert _ _ _ _ (by simp), if_neg (by simpa using Ne.symm apart)]
    refine Option.ext fun found => ?_
    rw [fileNamed ends proper (unlinkedKept ends proper keeps unlinked first there) (walkKept keeps first),
      fileNamed ends proper unlinked first, spared]
    simp only [there, keeps.directory there]
  · intro l data v' located plain renamed
    obtain ⟨directory, first, there, rfl, link⟩ := writtenAt ends' proper' unlinked' located
    rw [root] at first
    have keeps : Keeps v (v.insert (directory ++ [.text last]) (.file data)) :=
      keepsWritten (by simp) link plain
    refine renamedOver ends proper ends' proper' apart root
      (unlinkedKept ends proper keeps unlinked first there) (walkKept keeps first)
      (keeps.directory there) ?_ renamed
    rw [node?_insert _ _ _ _ (by simp), if_pos rfl]

end Both

end Named
end Beside
end Volume
end BackupRotation
