import BackupRotation.Proofs.EntryDeletion
/-! Walks in a volume that grows around them. New directories, and files written where no directory or
link lies, lead no walk astray that arrived before. A walk that did not arrive comes to nothing but new
directories, unless it goes back up from a directory that was missing. -/
namespace BackupRotation
namespace Volume

/-- Whatever lies somewhere lies in a directory. -/
def Rooted (v : Volume) : Prop :=
  ∀ l name n, v.node? (l ++ [name]) = some n → v.node? l = some .directory

/-- Every directory stays one, and the links are the same. -/
structure Keeps (v u : Volume) : Prop where
  directory : ∀ {l}, v.node? l = some .directory → u.node? l = some .directory
  link : ∀ {l target}, v.node? l = some (.link target) ↔ u.node? l = some (.link target)

/-- The file that a path leads to, if it leads to one. -/
def file? (v : Volume) (here : Location) (path : String) : Option FileData :=
  match v.find here path with
  | .ok (_, .file data) => some data
  | _ => none

/-- No link lies at the path itself. -/
def Unlinked (v : Volume) (here : Location) (path : String) : Prop :=
  ∀ l target, v.locate here .name path = .ok l → v.node? l ≠ some (.link target)

theorem fileIff {v : Volume} {here : Location} {path : String} {data : FileData} :
    v.file? here path = some data ↔ checkPath path = .ok () ∧
      ∃ l, walk v .node linkLimit (origin here path) (route path) = .ok l ∧
        v.node? l = some (.file data) := by
  simp only [file?, find, bind, Except.bind]
  cases located : v.locate here .node path with
  | error e =>
    have nowhere (l : Location) : ¬ v.locate here .node path = .ok l := by simp [located]
    simp only [locateIff] at nowhere
    simp only [reduceCtorEq, false_iff]
    rintro ⟨checked, l, walked, _⟩
    exact nowhere l ⟨checked, walked⟩
  | ok l =>
    obtain ⟨checked, walked⟩ := locateIff.mp located
    simp only [checked, walked, true_and, Except.ok.injEq, exists_eq_left']
    cases v.node? l with
    | none => simp
    | some n => cases n <;> simp

theorem unlinkedAt {v : Volume} {here l : Location} {path : String} {n : Option Node}
    (located : v.locate here .name path = .ok l) (found : v.node? l = n)
    (plain : ∀ target, n ≠ some (.link target)) : Unlinked v here path := by
  intro m target again
  cases located.symm.trans again
  exact found ▸ plain target

section Nodes
variable {v u : Volume} {here l m : Location} {n : Node} {name : Octets} {data : FileData}

theorem rootedUp (rooted : v.Rooted) (directory : v.node? l = some .directory) :
    v.node? l.dropLast = some .directory := by
  rcases List.eq_nil_or_concat l with rfl | ⟨above, name, rfl⟩
  · exact directory
  · rw [List.concat_eq_append, List.dropLast_concat]
    exact rooted above name _ (by rwa [List.concat_eq_append] at directory)

theorem rootedAll (all : ∀ e ∈ v.nodes, v.node? e.1.dropLast = some .directory) : v.Rooted := by
  intro l name n found
  simp only [node?, List.append_eq_nil_iff, List.cons_ne_self, and_false, if_false,
    Option.map_eq_some_iff] at found
  obtain ⟨e, there, _⟩ := found
  have place : e.1 = l ++ [name] := by simpa using List.find?_some there
  have above := all e (List.mem_of_find?_eq_some there)
  rwa [place, List.dropLast_concat] at above

theorem rootedMade (rooted : v.Rooted) (above : v.node? l = some .directory) :
    (v.insert (l ++ [name]) .directory).Rooted := by
  intro m other n found
  have inner (m : Location) : (v.insert (l ++ [name]) .directory).node? m =
      if m = l ++ [name] then some .directory else v.node? m := node?_insert v _ m _ (by simp)
  rw [inner] at found ⊢
  split
  · rfl
  · split at found
    · rename_i same
      rwa [(List.append_inj' same rfl).1]
    · exact rooted m other n found

theorem keepsTrans {t : Volume} (first : Keeps v u) (second : Keeps u t) : Keeps v t :=
  ⟨fun h => second.directory (first.directory h), first.link.trans second.link⟩

theorem keepsWritten (inner : l ≠ []) (link : ∀ target, v.node? l ≠ some (.link target))
    (plain : v.node? l ≠ some .directory) : Keeps v (v.insert l (.file data)) := by
  constructor
  · intro m directory
    rw [node?_insert v l m _ inner]
    split
    · rename_i same
      exact absurd (same ▸ directory) plain
    · exact directory
  · intro m target
    rw [node?_insert v l m _ inner]
    split
    · rename_i same
      simp [same, link target]
    · rfl

theorem keepsErased (inner : l ≠ []) (file : v.node? l = some (.file data)) : Keeps v (v.erase l) := by
  constructor
  · intro m directory
    rw [node?_erase v l m inner]
    split
    · rename_i same
      rw [same, file] at directory
      cases directory
    · exact directory
  · intro m target
    rw [node?_erase v l m inner]
    split
    · rename_i same
      simp [same, file]
    · rfl

end Nodes

section Walks
variable {v u : Volume} {here l m : Location} {step : String} {steps xs : List String} {links : Nat}
  {aim : Aim}

theorem turnKept (kept : Keeps v u) (goes : ∀ e, v.turn here step ≠ .stop e) :
    u.turn here step = v.turn here step := by
  have directory : v.node? here = some .directory := by
    cases h : v.turn here step with
    | stop e => exact absurd h (goes e)
    | on l => exact turnOn h
    | follow link target => exact (turnFollow h).1
  simp only [turn, directory, kept.directory directory]
  split_ifs with void up long
  · rfl
  · rfl
  · rfl
  · cases found : v.node? (here ++ [.text step]) with
    | none =>
      cases other : u.node? (here ++ [.text step]) with
      | none => rfl
      | some n =>
        cases n with
        | link target => simp [kept.link.mpr other] at found
        | _ => rfl
    | some n =>
      cases n with
      | link target => rw [kept.link.mp found]
      | _ =>
        cases other : u.node? (here ++ [.text step]) with
        | none => rfl
        | some n =>
          cases n with
          | link target => simp [kept.link.mpr other] at found
          | _ => rfl

theorem walkKept (kept : Keeps v u) (walked : walk v .node links here steps = .ok l) :
    walk u .node links here steps = .ok l := by
  induction links, here, steps using walkInduct v with
  | done links here => rwa [walkNil] at walked ⊢
  | stop links here step steps e h => simp [walkTurn, h] at walked
  | on links here step steps m h ih =>
    have same : u.turn here step = v.turn here step := turnKept kept (by simp [h])
    simp only [walkTurn, same, h] at walked ⊢
    exact ih walked
  | loop here step steps link target h => simp [walkTurn, h] at walked
  | follow links here step steps link target h ih =>
    have same : u.turn here step = v.turn here step := turnKept kept (by simp [h])
    simp only [walkTurn, same, h] at walked ⊢
    exact ih walked

theorem walkGoes {jump : Location → List String → Except FileError Location}
    (plain : aim = .name → ∀ target, v.node? l ≠ some (.link target))
    (walked : walkWith v aim jump here (step :: steps) = .ok l) :
    match v.turn here step with
    | .stop _ => False
    | .on m => walkWith v aim jump m steps = .ok l
    | .follow _ target => jump (origin here target) (route target ++ steps) = .ok l := by
  unfold walkWith at walked
  unfold turn
  cases found : v.node? here with
  | none => simp [found] at walked
  | some n =>
    cases n with
    | file data => simp [found] at walked
    | link target => simp [found] at walked
    | directory =>
      simp only [found] at walked ⊢
      by_cases void : step = "" ∨ step = "."
      · simpa only [void, if_true] using walked
      by_cases up : step = ".."
      · simpa [up] using walked
      by_cases slash : steps = [""] ∧ aim = .file
      · simp only [void, up, slash, and_self, if_true, if_false, reduceCtorEq] at walked
      by_cases long : nameLimit < step.utf8ByteSize
      · simp only [void, up, slash, long, if_true, if_false, reduceCtorEq] at walked
      simp only [void, up, slash, long, if_false] at walked ⊢
      -- only at a link does the aim make a difference now, and only where the path ends
      cases next : v.node? (here ++ [.text step]) with
      | none => simpa only [next] using walked
      | some n =>
        cases n with
        | link target =>
          simp only [next] at walked ⊢
          split_ifs at walked with ends
          · obtain rfl := Except.ok.inj walked
            exact absurd next (plain ends.2 target)
          · exact walked
        | _ => simpa only [next] using walked

/-- A walk to a place for a file, or to a name that is no link, is the walk to the node there. -/
theorem walkAny (plain : aim = .name → ∀ target, v.node? l ≠ some (.link target))
    (walked : walk v aim links here steps = .ok l) : walk v .node links here steps = .ok l := by
  induction links, here, steps using walkInduct v with
  | done links here => rwa [walkNil] at walked ⊢
  | stop links here step steps e h => cases links <;> simpa only [h] using walkGoes plain walked
  | on links here step steps m h ih =>
    have goes : walk v aim links m steps = .ok l := by
      cases links with
      | zero =>
        have goes := walkGoes plain walked
        rwa [h] at goes
      | succ links =>
        have goes := walkGoes plain walked
        rwa [h] at goes
    rw [walkTurn, h]
    exact ih goes
  | loop here step steps link target h => simpa [h] using walkGoes plain walked
  | follow links here step steps link target h ih =>
    have goes := walkGoes plain walked
    simp only [h] at goes
    rw [walkTurn, h]
    exact ih goes

theorem walkStarts (walked : walk v .node links here (step :: steps) = .ok l) :
    v.node? here = some .directory := by
  rw [walkTurn] at walked
  cases h : v.turn here step with
  | stop e => simp [h] at walked
  | on l => exact turnOn h
  | follow link target => exact (turnFollow h).1

theorem walkLast (walked : walk v .node links here (steps ++ [step]) = .ok l) :
    ∃ m, walk v .node links here steps = .ok m ∧ v.node? m = some .directory := by
  obtain ⟨m, first, last⟩ := walkSplit walked
  exact ⟨m, first, walkStarts last⟩

theorem walkVoid (void : step = "" ∨ step = ".")
    (walked : walk v .node links here (steps ++ [step]) = .ok l) : v.node? l = some .directory := by
  obtain ⟨m, _, last⟩ := walkSplit walked
  have directory := walkStarts last
  simp only [walkTurn, turn, directory, void, if_true, walkNil, Except.ok.injEq] at last
  exact last ▸ directory

theorem walkUp (rooted : v.Rooted) (walked : walk v .node links here (steps ++ [".."]) = .ok l) :
    v.node? l = some .directory := by
  obtain ⟨m, _, last⟩ := walkSplit walked
  have directory := walkStarts last
  simp only [walkTurn, turn, directory, String.reduceEq, or_self, if_false, if_true, walkNil,
    Except.ok.injEq] at last
  exact last ▸ rootedUp rooted directory

/-- Where the last step is no name, the walk ends at a directory. -/
theorem walkNameless (rooted : v.Rooted) (nameless : ¬ (step ≠ "" ∧ step ≠ "." ∧ step ≠ ".."))
    (walked : walk v .node links here (steps ++ [step]) = .ok l) : v.node? l = some .directory := by
  by_cases void : step = "" ∨ step = "."
  · exact walkVoid void walked
  · obtain rfl : step = ".." := by
      by_contra leads
      exact nameless (by simpa only [not_or, and_assoc] using And.intro void leads)
    exact walkUp rooted walked

theorem walkShort {name : String} (proper : name ≠ "" ∧ name ≠ "." ∧ name ≠ "..")
    (walked : walk v .node links here (name :: steps) = .ok l) : name.utf8ByteSize ≤ nameLimit := by
  by_contra long
  simp [walkTurn, turnLong proper (walkStarts walked) (Nat.not_le.mp long)] at walked

section Unlinked
variable {path name : String} (ends : route path = steps ++ [name])
  (proper : name ≠ "" ∧ name ≠ "." ∧ name ≠ "..") (unlinked : Unlinked v here path)
  (checked : checkPath path = .ok ()) (first : walk v .node linkLimit (origin here path) steps = .ok m)
include ends proper unlinked checked first

theorem unlinkedNode (directory : v.node? m = some .directory) (short : name.utf8ByteSize ≤ nameLimit)
    (target : String) : v.node? (m ++ [.text name]) ≠ some (.link target) := by
  have walked := walkName proper short directory first
  rw [← ends] at walked
  exact unlinked _ target (locateIff.mpr ⟨checked, walked⟩)

/-- A path that ends in a name leads into the directory before it, unless a link lies there. -/
theorem unlinkedWalk :
    walk v .node linkLimit (origin here path) (route path) = .ok l ↔
      v.node? m = some .directory ∧ name.utf8ByteSize ≤ nameLimit ∧ l = m ++ [.text name] := by
  obtain ⟨left, _, onwards⟩ := walkOnwards first
  have plain := unlinkedNode ends proper unlinked checked first
  rw [ends, onwards]
  constructor
  · intro walked
    have directory := walkStarts walked
    have short := walkShort proper walked
    rw [walkTurn, turnPlain proper short directory (plain directory short)] at walked
    simp only [walkNil, Except.ok.injEq] at walked
    exact ⟨directory, short, walked.symm⟩
  · rintro ⟨directory, short, rfl⟩
    rw [walkTurn, turnPlain proper short directory (plain directory short)]
    exact walkNil .node left

end Unlinked

theorem walkMissing (missing : v.node? here = none) (walked : walk v .node links here steps = .ok l) :
    steps = [] ∧ l = here := by
  cases steps with
  | nil =>
    rw [walkNil] at walked
    exact ⟨rfl, (Except.ok.inj walked).symm⟩
  | cons step steps => simp [walkTurn, turn, missing] at walked

theorem walkToMissing {name : String} (proper : name ≠ "" ∧ name ≠ "." ∧ name ≠ "..")
    (short : name.utf8ByteSize ≤ nameLimit) (missing : v.node? (here ++ [.text name]) = none)
    (walked : walk v .node links here (name :: steps) = .ok l) :
    steps = [] ∧ l = here ++ [.text name] := by
  have directory := walkStarts walked
  rw [walkTurn, turnPlain proper short directory (by simp [missing])] at walked
  exact walkMissing missing walked

end Walks

/-- The first name that is missing on the way along `before ++ name :: behind`, where the steps behind it
do not go back up. -/
structure Gap (v : Volume) (here : Location) (before : List String) (name : String)
    (behind : List String) (l : Location) : Prop where
  proper : name ≠ "" ∧ name ≠ "." ∧ name ≠ ".."
  short : name.utf8ByteSize ≤ nameLimit
  walked : walk v .node linkLimit here before = .ok l
  directory : v.node? l = some .directory
  missing : v.node? (l ++ [.text name]) = none
  descends : ".." ∉ behind

/-- Directories have come, all at one location or below it; nothing else has changed. -/
structure Grown (v u : Volume) (gap : Location) : Prop where
  same : ∀ l, ¬ gap <+: l → u.node? l = v.node? l
  fresh : ∀ l, gap <+: l → u.node? l = none ∨ u.node? l = some .directory

section Grown
variable {v u : Volume} {here gap l m : Location} {before behind more steps : List String}
  {name : String} {links : Nat}

theorem nothingBelow (rooted : v.Rooted) (missing : v.node? gap = none) (below : gap <+: l) :
    v.node? l = none := by
  obtain ⟨path, rfl⟩ := below
  induction path using List.reverseRecOn with
  | nil => rwa [List.append_nil]
  | append_singleton path name ih =>
    by_contra there
    obtain ⟨n, found⟩ := Option.ne_none_iff_exists'.mp there
    rw [← List.append_assoc] at found
    rw [rooted _ name n found] at ih
    cases ih

theorem grownSelf (rooted : v.Rooted) (missing : v.node? gap = none) : Grown v v gap :=
  ⟨fun _ _ => rfl, fun _ below => .inl (nothingBelow rooted missing below)⟩

theorem grownMade (grown : Grown v u gap) (inner : l ≠ []) (below : gap <+: l) :
    Grown v (u.insert l .directory) gap := by
  constructor
  · intro m apart
    rw [node?_insert u l m _ inner, if_neg (fun same : m = l => apart (same ▸ below))]
    exact grown.same m apart
  · intro m inside
    rw [node?_insert u l m _ inner]
    split
    · exact .inr rfl
    · exact grown.fresh m inside

theorem grownKeeps (rooted : v.Rooted) (missing : v.node? gap = none) (grown : Grown v u gap) :
    Keeps v u := by
  have apart {l : Location} {n : Node} (found : v.node? l = some n) : ¬ gap <+: l := by
    intro below
    rw [nothingBelow rooted missing below] at found
    cases found
  constructor
  · intro l directory
    rwa [grown.same l (apart directory)]
  · intro l target
    constructor
    · intro link
      rwa [grown.same l (apart link)]
    · intro link
      by_cases below : gap <+: l
      · rcases grown.fresh l below with none | directory
        · cases none.symm.trans link
        · cases directory.symm.trans link
      · rwa [← grown.same l below]

theorem turnDown (grown : Grown v u gap) (below : gap <+: here) {step : String} (descends : step ≠ "..") :
    (∃ e, u.turn here step = .stop e) ∨ ∃ l, u.turn here step = .on l ∧ gap <+: l := by
  have next : gap <+: here ++ [.text step] := below.trans (List.prefix_append _ _)
  unfold turn
  rcases grown.fresh here below with missing | directory
  · exact .inl ⟨_, by rw [missing]⟩
  · simp only [directory, descends, if_false]
    split_ifs with void long
    · exact .inr ⟨here, rfl, below⟩
    · exact .inl ⟨_, rfl⟩
    · rcases grown.fresh _ next with missing | directory
      · exact .inr ⟨_, by rw [missing], next⟩
      · exact .inr ⟨_, by rw [directory], next⟩

theorem walkDown (grown : Grown v u gap) (below : gap <+: here) (descends : ".." ∉ steps)
    (walked : walk u .node links here steps = .ok l) : gap <+: l := by
  induction steps generalizing here with
  | nil =>
    rw [walkNil] at walked
    exact Except.ok.inj walked ▸ below
  | cons step steps ih =>
    rw [List.mem_cons, not_or] at descends
    rw [walkTurn] at walked
    rcases turnDown grown below (Ne.symm descends.1) with ⟨e, stop⟩ | ⟨m, on, deeper⟩
    · simp [stop] at walked
    · simp only [on] at walked
      exact ih deeper descends.2 walked

theorem walkBeyond (gap : Gap v here before name behind l) (keeps : Keeps v u)
    (grown : Grown v u (l ++ [.text name])) (descends : ".." ∉ more)
    (walked : walk u .node links here (before ++ name :: more) = .ok m) :
    l ++ [.text name] <+: m := by
  obtain ⟨l', first, rest⟩ := walkSplit walked
  obtain rfl := walkUnique (walkKept keeps gap.walked) first
  have plain (target) : u.node? (l ++ [.text name]) ≠ some (.link target) := by
    rcases grown.fresh _ List.prefix_rfl with missing | directory
    · simp [missing]
    · simp [directory]
  rw [walkTurn, turnPlain gap.proper gap.short (keeps.directory gap.directory) plain] at rest
  exact walkDown grown List.prefix_rfl descends rest

end Grown
end Volume
end BackupRotation
