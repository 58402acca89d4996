import BackupRotation.Proofs.Growth
import BackupRotation.Proofs.Places
/-! What is left when missing directories are made on the way of a path: nothing new, or directories at
the first name that was missing and below it. A path that does not go back up from a missing directory
leads to the same file then, or to none as before. -/
namespace BackupRotation
namespace Volume

theorem splitsMeet {α : Type} {xs ys xs' ys' : List α} {a b : α} (same : xs ++ a :: ys = xs' ++ b :: ys') :
    (xs = xs' ∧ a = b) ∨ (∃ more, xs' = xs ++ a :: more ∧ ys = more ++ b :: ys') ∨
      ∃ more, xs = xs' ++ b :: more ∧ ys' = more ++ a :: ys := by
  rcases List.append_eq_append_iff.mp same with ⟨more, rfl, tail⟩ | ⟨more, rfl, tail⟩
  · cases more with
    | nil => exact .inl ⟨(List.append_nil xs).symm, (List.cons.inj tail).1⟩
    | cons next more =>
      obtain ⟨rfl, rest⟩ := List.cons.inj tail
      exact .inr (.inl ⟨more, rfl, rest⟩)
  · cases more with
    | nil => exact .inl ⟨List.append_nil xs', (List.cons.inj tail).1.symm⟩
    | cons next more =>
      obtain ⟨rfl, rest⟩ := List.cons.inj tail
      exact .inr (.inr ⟨more, rfl, rest⟩)

section Made
variable {u u' : Volume} {here : Location} {path : String}

theorem originRoot (checked : checkPath path = .ok ()) (nothing : steps path = []) :
    origin here path = [] := by
  have filled : path ≠ "" := by
    rintro rfl
    cases checked
  have absolute := Path.rootAlone filled nothing
  rw [origin, if_pos (by simpa [Path.isAbsolute] using absolute)]

theorem createdAt (rooted : u.Rooted) (made : u.createDirectory here path = .ok u') :
    ∃ before name l, steps path = before ++ [name] ∧ (name ≠ "" ∧ name ≠ "." ∧ name ≠ "..") ∧
      walk u .node linkLimit (origin here path) before = .ok l ∧ u.node? l = some .directory ∧
      name.utf8ByteSize ≤ nameLimit ∧ u.node? (l ++ [.text name]) = none ∧
      u' = u.insert (l ++ [.text name]) .directory := by
  simp only [createDirectory, locateBare, bind, Except.bind] at made
  cases checked : checkPath path with
  | error e => simp [checked] at made
  | ok _ =>
    simp only [checked] at made
    cases walked : walk u .name linkLimit (origin here path) (steps path) with
    | error e => simp [walked] at made
    | ok m =>
      simp only [walked] at made
      cases found : u.node? m with
      | some n => simp [found] at made
      | none =>
        simp only [found, Except.ok.injEq] at made
        have plain : Aim.name = .name → ∀ target, u.node? m ≠ some (.link target) := by simp [found]
        rcases List.eq_nil_or_concat (steps path) with nothing | ⟨before, name, last⟩
        · -- a path without a name is that of the root, and the root is there
          rw [nothing, walkNil, Except.ok.injEq, originRoot checked nothing] at walked
          rw [← walked] at found
          cases found
        · rw [List.concat_eq_append] at last
          rw [last] at walked
          by_cases proper : name ≠ "" ∧ name ≠ "." ∧ name ≠ ".."
          · obtain ⟨l, first, directory, short, rfl⟩ := walkNamed proper walked
            exact ⟨before, name, l, last, proper, first, directory, short, found, made.symm⟩
          · have directory := walkNameless rooted proper (walkAny plain walked)
            cases found.symm.trans directory

end Made

/-- A walk along the steps goes back up only from directories that are there. -/
def Climbs (v : Volume) (here : Location) (steps : List String) : Prop :=
  ∀ xs ys, steps = xs ++ ".." :: ys →
    ∃ l, walk v .node linkLimit here xs = .ok l ∧ v.node? l = some .directory

/-- What making directories on the way along the steps can leave. -/
structure Prepared (v u : Volume) (here : Location) (steps : List String) : Prop where
  rooted : u.Rooted
  change : u = v ∨ ∃ before name behind l, steps = before ++ name :: behind ∧
    Gap v here before name behind l ∧ Grown v u (l ++ [.text name])

section Prepared
variable {v u u' : Volume} {here : Location} {path : String}

theorem gapMade {before behind : List String} {name : String} {l : Location}
    (climbs : Climbs v here (before ++ name :: behind)) (proper : name ≠ "" ∧ name ≠ "." ∧ name ≠ "..")
    (short : name.utf8ByteSize ≤ nameLimit) (walked : walk v .node linkLimit here before = .ok l)
    (directory : v.node? l = some .directory) (missing : v.node? (l ++ [.text name]) = none) :
    Gap v here before name behind l := by
  refine ⟨proper, short, walked, directory, missing, fun up => ?_⟩
  obtain ⟨down, rest, rfl⟩ := List.append_of_mem up
  obtain ⟨m, arrived, there⟩ := climbs (before ++ name :: down) rest (by simp)
  obtain ⟨l', first, last⟩ := walkSplit arrived
  obtain rfl := walkUnique walked first
  obtain ⟨_, rfl⟩ := walkToMissing proper short missing last
  cases missing.symm.trans there

/-- A directory made later on the way lies where the first one was missing, or below. -/
theorem madeBelow {before behind before' behind' : List String} {name name' : String} {l l' : Location}
    (gap : Gap v here before name behind l) (rooted : v.Rooted) (grown : Grown v u (l ++ [.text name]))
    (same : before ++ name :: behind = before' ++ name' :: behind')
    (proper : name' ≠ "" ∧ name' ≠ "." ∧ name' ≠ "..") (short : name'.utf8ByteSize ≤ nameLimit)
    (walked : walk u .node linkLimit here before' = .ok l')
    (missing : u.node? (l' ++ [.text name']) = none) :
    l ++ [.text name] <+: l' ++ [.text name'] := by
  have keeps := grownKeeps rooted gap.missing grown
  rcases splitsMeet same with ⟨rfl, rfl⟩ | ⟨more, rfl, rfl⟩ | ⟨more, rfl, rfl⟩
  · obtain rfl := walkUnique (walkKept keeps gap.walked) walked
    exact List.prefix_rfl
  · have descends : ".." ∉ more := fun up => gap.descends (List.mem_append_left _ up)
    exact (walkBeyond gap keeps grown descends walked).trans (List.prefix_append _ _)
  · -- what lies before the gap has been there already
    exfalso
    obtain ⟨m, first, last⟩ := walkSplit gap.walked
    obtain rfl := walkUnique (walkKept keeps first) walked
    have nothing : v.node? (m ++ [.text name']) = none := by
      by_cases below : l ++ [.text name] <+: m ++ [.text name']
      · exact nothingBelow rooted gap.missing below
      · rwa [← grown.same _ below]
    obtain ⟨_, rfl⟩ := walkToMissing proper short nothing last
    cases nothing.symm.trans gap.directory

variable (rooted : v.Rooted)
include rooted

theorem preparedSelf (steps : List String) : Prepared v v here steps := ⟨rooted, .inl rfl⟩

theorem preparedMade {start : Location} {steps : List String} (climbs : Climbs v start steps)
    (prepared : Prepared v u start steps) (part : Volume.steps path <+: steps)
    (root : origin here path = start) (made : u.createDirectory here path = .ok u') :
    Prepared v u' start steps := by
  obtain ⟨before, name, l, ends, proper, walked, directory, short, missing, rfl⟩ :=
    createdAt prepared.rooted made
  obtain ⟨behind, whole⟩ := part
  rw [ends, List.append_assoc, List.singleton_append] at whole
  rw [root] at walked
  refine ⟨rootedMade prepared.rooted directory, .inr ?_⟩
  -- the first directory shows what is missing, and every later one lies there or below
  rcases prepared.change with rfl | ⟨first, name', rest, l', same, gap, grown⟩
  · have gap := gapMade (whole ▸ climbs) proper short walked directory missing
    exact ⟨before, name, behind, l, whole.symm, gap,
      grownMade (grownSelf rooted missing) (by simp) List.prefix_rfl⟩
  · have below := madeBelow gap rooted grown (same.symm.trans whole.symm) proper short walked missing
    exact ⟨first, name', rest, l', same, gap, grownMade grown (by simp) below⟩

section Ends
variable {base : List String} {last : String} (ends : route path = base ++ [last])
  (proper : last ≠ "" ∧ last ≠ "." ∧ last ≠ "..")
include ends proper

theorem grownLost {before behind : List String} {name : String} {l : Location}
    (whole : base = before ++ name :: behind) (gap : Gap v (origin here path) before name behind l)
    (grown : Grown v u (l ++ [.text name])) : u.file? here path = none := by
  by_contra found
  obtain ⟨data, found⟩ := Option.ne_none_iff_exists'.mp found
  obtain ⟨_, m, walked, file⟩ := fileIff.mp found
  rw [ends, whole, List.append_assoc, List.cons_append] at walked
  have descends : ".." ∉ behind ++ [last] := by
    simpa using ⟨gap.descends, Ne.symm proper.2.2⟩
  have below := walkBeyond gap (grownKeeps rooted gap.missing grown) grown descends walked
  rcases grown.fresh m below with missing | directory
  · cases missing.symm.trans file
  · cases directory.symm.trans file

theorem preparedFile (prepared : Prepared v u (origin here path) base) :
    u.file? here path = v.file? here path := by
  rcases prepared.change with rfl | ⟨before, name, behind, l, whole, gap, grown⟩
  · rfl
  · rw [grownLost rooted ends proper whole gap grown,
      grownLost rooted ends proper whole gap (grownSelf rooted gap.missing)]

theorem preparedUnlinked (prepared : Prepared v u (origin here path) base)
    (unlinked : Unlinked v here path) : Unlinked u here path := by
  rcases prepared.change with rfl | ⟨before, name, behind, l, whole, gap, grown⟩
  · exact unlinked
  · intro m target located
    have walked := (locateIff.mp located).2
    rw [ends] at walked
    obtain ⟨m, first, _, _, rfl⟩ := walkNamed proper walked
    rw [whole] at first
    have below := walkBeyond gap (grownKeeps rooted gap.missing grown) grown gap.descends first
    rcases grown.fresh (m ++ [.text last]) (below.trans (List.prefix_append _ _)) with none | directory
    · simp [none]
    · simp [directory]

end Ends
end Prepared
end Volume
end BackupRotation
