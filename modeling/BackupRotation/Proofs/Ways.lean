import BackupRotation.Proofs.Clearing
import BackupRotation.Volume.Operations
/-! The way of a path: the links that are followed on it, in their order, and where it ends. Taking
files and links away changes nothing for a path that has none of them on its way, and every other path
then leads nowhere. -/
namespace BackupRotation
namespace Volume

inductive Turn where
  | stop (e : FileError)
  | on (l : Location)
  | follow (link : Location) (target : String)

def turn (v : Volume) (here : Location) (step : String) : Turn :=
  match v.node? here with
  | none => .stop .noEntry
  | some (.file _) => .stop .notDirectory
  | some (.link _) => .stop .notDirectory
  | some .directory =>
    if step = "" ∨ step = "." then .on here
    else if step = ".." then .on here.dropLast
    else if nameLimit < step.utf8ByteSize then .stop .nameTooLong
    else
      match v.node? (here ++ [.text step]) with
      | some (.link target) => .follow (here ++ [.text step]) target
      | _ => .on (here ++ [.text step])

def wayWith (v : Volume) (jump : Location → List String → List Location) :
    Location → List String → List Location
  | here, [] => [here]
  | here, step :: rest =>
    match v.turn here step with
    | .stop _ => [here]
    | .on l => wayWith v jump l rest
    | .follow link target => link :: jump (origin here target) (route target ++ rest)

def wayOver (v : Volume) : (links : Nat) → Location → List String → List Location
  | 0 => wayWith v fun _ _ => []
  | links + 1 => wayWith v (wayOver v links)

def way (v : Volume) (here : Location) (path : String) : List Location :=
  wayOver v linkLimit (origin here path) (route path)

section Turns
variable {v : Volume} {gone : List Location} {here : Location} {step : String} {rest : List String}
  {aim : Aim} {jump : Location → List String → Except FileError Location}

theorem walkWithTurn (follows : aim = .node ∨ aim = .name ∧ rest ≠ []) :
    walkWith v aim jump here (step :: rest) =
      match v.turn here step with
      | .stop e => .error e
      | .on l => walkWith v aim jump l rest
      | .follow _ target => jump (origin here target) (route target ++ rest) := by
  have file : aim ≠ .file := by
    rcases follows with h | h
    · simp [h]
    · simp [h.1]
  have name : ¬ (rest = [] ∧ aim = .name) := by
    rcases follows with h | h
    · simp [h]
    · simp [h.2]
  simp only [walkWith, turn, file, name, and_false, if_false]
  cases v.node? here with
  | none => rfl
  | some n =>
    cases n with
    | file data => rfl
    | link target => rfl
    | directory =>
      simp only
      split_ifs with void up long
      · rfl
      · rfl
      · rfl
      · cases v.node? (here ++ [.text step]) with
        | none => rfl
        | some n => cases n <;> rfl

theorem walkTurn {steps : List String} (links : Nat) :
    walk v .node links here (step :: steps) =
      match v.turn here step with
      | .stop e => .error e
      | .on l => walk v .node links l steps
      | .follow _ target =>
        match links with
        | 0 => .error .linkLoop
        | links + 1 => walk v .node links (origin here target) (route target ++ steps) := by
  cases links with
  | zero => exact walkWithTurn (.inl rfl)
  | succ links => exact walkWithTurn (.inl rfl)

theorem nameTurn {steps : List String} (links : Nat) (more : steps ≠ []) :
    walk v .name links here (step :: steps) =
      match v.turn here step with
      | .stop e => .error e
      | .on l => walk v .name links l steps
      | .follow _ target =>
        match links with
        | 0 => .error .linkLoop
        | links + 1 => walk v .name links (origin here target) (route target ++ steps) := by
  cases links with
  | zero => exact walkWithTurn (.inr ⟨rfl, more⟩)
  | succ links => exact walkWithTurn (.inr ⟨rfl, more⟩)

theorem walkNil (aim : Aim) (links : Nat) : walk v aim links here [] = .ok here := by
  cases links <;> rfl

theorem wayTurn {steps : List String} (links : Nat) : v.wayOver links here (step :: steps) =
    match v.turn here step with
    | .stop _ => [here]
    | .on l => v.wayOver links l steps
    | .follow link target =>
      match links with
      | 0 => [link]
      | links + 1 => link :: v.wayOver links (origin here target) (route target ++ steps) := by
  cases links with
  | zero => rfl
  | succ links => rfl

theorem wayNil (links : Nat) : v.wayOver links here [] = [here] := by cases links <;> rfl

theorem turnGone (root : [] ∉ gone) (taken : here ∈ gone) :
    (v.clear gone).turn here step = .stop .noEntry := by
  simp [turn, nodeClear v root, taken]

theorem turnClear (root : [] ∉ gone) (stays : here ∉ gone) :
    (v.clear gone).turn here step =
      match v.turn here step with
      | .follow link target => if link ∈ gone then .on link else .follow link target
      | other => other := by
  simp only [turn, nodeClear v root, stays, if_false]
  cases v.node? here with
  | none => rfl
  | some n =>
    cases n with
    | file data => rfl
    | link target => rfl
    | directory =>
      simp only
      split_ifs with void up long taken
      · rfl
      · rfl
      · rfl
      · cases v.node? (here ++ [.text step]) with
        | none => rfl
        | some n => cases n <;> simp [taken]
      · cases v.node? (here ++ [.text step]) with
        | none => rfl
        | some n => cases n <;> simp [taken]

theorem turnOn {l : Location} (on : v.turn here step = .on l) : v.node? here = some .directory := by
  unfold turn at on
  split at on
  · contradiction
  · contradiction
  · contradiction
  · assumption

theorem turnFollow {link : Location} {target : String} (follow : v.turn here step = .follow link target) :
    v.node? here = some .directory ∧ link = here ++ [.text step] ∧
      v.node? link = some (.link target) := by
  unfold turn at follow
  split at follow
  · contradiction
  · contradiction
  · contradiction
  · rename_i directory
    split_ifs at follow
    split at follow
    · rename_i found
      cases follow
      exact ⟨directory, rfl, found⟩
    · contradiction

end Turns

/-- The steps of a walk, by what each of them does, and the links still allowed. -/
@[elab_as_elim]
theorem walkInduct (v : Volume) {motive : Nat → Location → List String → Prop}
    (done : ∀ links here, motive links here [])
    (stop : ∀ links here step steps e, v.turn here step = .stop e →
      motive links here (step :: steps))
    (on : ∀ links here step steps l, v.turn here step = .on l → motive links l steps →
      motive links here (step :: steps))
    (loop : ∀ here step steps link target, v.turn here step = .follow link target →
      motive 0 here (step :: steps))
    (follow : ∀ links here step steps link target, v.turn here step = .follow link target →
      motive links (origin here target) (route target ++ steps) →
        motive (links + 1) here (step :: steps))
    (links : Nat) (here : Location) (steps : List String) : motive links here steps := by
  induction links generalizing here steps with
  | zero =>
    induction steps generalizing here with
    | nil => exact done 0 here
    | cons step steps ih =>
      cases h : v.turn here step with
      | stop e => exact stop 0 here step steps e h
      | on l => exact on 0 here step steps l h (ih l)
      | follow link target => exact loop here step steps link target h
  | succ links beyond =>
    induction steps generalizing here with
    | nil => exact done (links + 1) here
    | cons step steps ih =>
      cases h : v.turn here step with
      | stop e => exact stop (links + 1) here step steps e h
      | on l => exact on (links + 1) here step steps l h (ih l)
      | follow link target =>
        exact follow links here step steps link target h (beyond _ _)

def Lost (v : Volume) : Except FileError Location → Prop
  | .ok l => v.node? l = none
  | .error e => e = .noEntry

section Taken
variable {v : Volume} {gone : List Location} {here : Location} {steps : List String} {links : Nat}
  (root : [] ∉ gone) (plain : ∀ l ∈ gone, v.node? l ≠ some .directory)
include root plain

theorem walkAside (aside : ∀ l ∈ v.wayOver links here steps, l ∉ gone) :
    walk (v.clear gone) .node links here steps = walk v .node links here steps := by
  induction links, here, steps using walkInduct v with
  | done links here => rw [walkNil, walkNil]
  | stop links here step steps e h =>
    simp only [wayTurn, h, List.mem_singleton, forall_eq] at aside
    simp only [walkTurn, turnClear root aside, h]
  | on links here step steps l h ih =>
    have stays : here ∉ gone := fun taken => plain here taken (turnOn h)
    simp only [wayTurn, h] at aside
    simp only [walkTurn, turnClear root stays, h]
    exact ih aside
  | loop here step steps link target h =>
    have stays : here ∉ gone := fun taken => plain here taken (turnFollow h).1
    simp only [wayTurn, h, List.mem_singleton, forall_eq] at aside
    simp only [walkTurn, turnClear root stays, h, aside, if_false]
  | follow links here step steps link target h ih =>
    have stays : here ∉ gone := fun taken => plain here taken (turnFollow h).1
    simp only [wayTurn, h, List.mem_cons, forall_eq_or_imp] at aside
    simp only [walkTurn, turnClear root stays, h, aside.1, if_false]
    exact ih aside.2

omit plain in
theorem lostBehind {link : Location} (taken : link ∈ gone) :
    Lost (v.clear gone) (walk (v.clear gone) .node links link steps) := by
  cases steps with
  | nil =>
    rw [walkNil]
    simp [Lost, nodeClear v root, taken]
  | cons step steps =>
    rw [walkTurn, turnGone root taken]
    rfl

theorem walkLost (across : ∃ l ∈ v.wayOver links here steps, l ∈ gone) :
    Lost (v.clear gone) (walk (v.clear gone) .node links here steps) := by
  induction links, here, steps using walkInduct v with
  | done links here =>
    simp only [wayNil, List.mem_singleton, exists_eq_left] at across
    exact lostBehind root across
  | stop links here step steps e h =>
    simp only [wayTurn, h, List.mem_singleton, exists_eq_left] at across
    exact lostBehind root across
  | on links here step steps l h ih =>
    have stays : here ∉ gone := fun taken => plain here taken (turnOn h)
    simp only [wayTurn, h] at across
    simp only [walkTurn, turnClear root stays, h]
    exact ih across
  | loop here step steps link target h =>
    have stays : here ∉ gone := fun taken => plain here taken (turnFollow h).1
    simp only [wayTurn, h, List.mem_singleton, exists_eq_left] at across
    simp only [walkTurn, turnClear root stays, h, across, if_true]
    exact lostBehind root across
  | follow links here step steps link target h ih =>
    have stays : here ∉ gone := fun taken => plain here taken (turnFollow h).1
    simp only [walkTurn, turnClear root stays, h]
    by_cases taken : link ∈ gone
    · -- the link is not there any more, and what was behind it is not reached
      simp only [taken, if_true]
      exact lostBehind root taken
    · simp only [wayTurn, h, List.mem_cons] at across
      obtain ⟨l, rfl | beyond, inside⟩ := across
      · exact absurd inside taken
      · simp only [taken, if_false]
        exact ih ⟨l, beyond, inside⟩

end Taken

section Ends
variable {v : Volume} {here l : Location} {steps : List String} {links : Nat}

theorem walkEnds (walked : walk v .node links here steps = .ok l) :
    l ∈ v.wayOver links here steps := by
  induction links, here, steps using walkInduct v with
  | done links here =>
    rw [walkNil] at walked
    rw [wayNil, Except.ok.inj walked]
    exact List.mem_singleton_self l
  | stop links here step steps e h => simp [walkTurn, h] at walked
  | on links here step steps m h ih =>
    simp only [walkTurn, h] at walked
    simp only [wayTurn, h]
    exact ih walked
  | loop here step steps link target h => simp [walkTurn, h] at walked
  | follow links here step steps link target h ih =>
    simp only [walkTurn, h] at walked
    simp only [wayTurn, h]
    exact List.mem_cons_of_mem _ (ih walked)

end Ends

theorem locateIff {v : Volume} {here l : Location} {aim : Aim} {path : String} :
    v.locate here aim path = .ok l ↔
      checkPath path = .ok () ∧ walk v aim linkLimit (origin here path) (route path) = .ok l := by
  simp only [locate, bind, Except.bind]
  cases checkPath path with
  | error e => simp
  | ok checked => simp

section Paths
variable {v : Volume} {gone : List Location} {here : Location} {path : String}
  (root : [] ∉ gone) (plain : ∀ l ∈ gone, v.node? l ≠ some .directory)
include root plain

theorem findAside (aside : ∀ l ∈ v.way here path, l ∉ gone) :
    (v.clear gone).find here path = v.find here path := by
  have same : (v.clear gone).locate here .node path = v.locate here .node path := by
    simp only [locate]
    rw [walkAside root plain aside]
  simp only [find, same]
  cases h : v.locate here .node path with
  | error e => rfl
  | ok l =>
    have stays : l ∉ gone := aside l (walkEnds (locateIff.mp h).2)
    simp only [bind, Except.bind, nodeClear v root, stays, if_false]

theorem findLost (checked : checkPath path = .ok ()) (across : ∃ l ∈ v.way here path, l ∈ gone) :
    (v.clear gone).find here path = .error .noEntry := by
  have lost := walkLost root plain across
  simp only [find, locate, checked, bind, Except.bind]
  cases h : walk (v.clear gone) .node linkLimit (origin here path) (route path) with
  | error e =>
    obtain rfl : e = .noEntry := by simpa [h, Lost] using lost
    rfl
  | ok l =>
    have none : (v.clear gone).node? l = none := by simpa [h, Lost] using lost
    simp only [none]

theorem statusAside (aside : ∀ l ∈ v.way here path, l ∉ gone) :
    (v.clear gone).status here path = v.status here path := by
  simp only [status, findAside root plain aside]

theorem statusLost (checked : checkPath path = .ok ()) (across : ∃ l ∈ v.way here path, l ∈ gone) :
    (v.clear gone).status here path = .error .noEntry := by
  simp only [status, findLost root plain checked across]
  rfl

theorem statusClear : (v.clear gone).status here path = v.status here path ∨
    (v.clear gone).status here path = .error .noEntry := by
  by_cases aside : ∀ l ∈ v.way here path, l ∉ gone
  · exact .inl (statusAside root plain aside)
  · cases checked : checkPath path with
    | error e => exact .inl (by simp [status, find, locate, checked, bind, Except.bind])
    | ok u =>
      have across : ∃ l ∈ v.way here path, l ∈ gone := by
        simpa using aside
      exact .inr (statusLost root plain checked across)

end Paths

end Volume
end BackupRotation
