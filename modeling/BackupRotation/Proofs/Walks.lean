import BackupRotation.Proofs.Ways
/-! Where walks lead: more links allowed change nothing on a walk that succeeded, a walk can be cut in
two, and what lies on its way leads where the walk leads. -/
namespace BackupRotation
namespace Volume

section Walks
variable {v : Volume} {here l m : Location} {steps xs ys : List String} {links more : Nat}

theorem walkMore (le : links ≤ more) (walked : walk v .node links here steps = .ok l) :
    walk v .node more here steps = .ok l := by
  induction links, here, steps using walkInduct v generalizing more with
  | done links here =>
    rw [walkNil] at walked ⊢
    exact walked
  | stop links here step steps e h => simp [walkTurn, h] at walked
  | on links here step steps m h ih =>
    simp only [walkTurn, h] at walked ⊢
    exact ih le walked
  | loop here step steps link target h => simp [walkTurn, h] at walked
  | follow links here step steps link target h ih =>
    obtain ⟨more, rfl⟩ : ∃ n, more = n + 1 := ⟨more - 1, by omega⟩
    simp only [walkTurn, h] at walked ⊢
    exact ih (Nat.le_of_succ_le_succ le) walked

theorem walkUnique (first : walk v .node links here steps = .ok l)
    (second : walk v .node more here steps = .ok m) : l = m := by
  have left := walkMore (Nat.le_max_left links more) first
  have right := walkMore (Nat.le_max_right links more) second
  exact Except.ok.inj (left.symm.trans right)

theorem walkSplit (walked : walk v .node links here (xs ++ ys) = .ok l) :
    ∃ m, walk v .node links here xs = .ok m ∧ walk v .node links m ys = .ok l := by
  induction links, here, xs using walkInduct v with
  | done links here => exact ⟨here, walkNil .node links, walked⟩
  | stop links here step xs e h => simp [walkTurn, h] at walked
  | on links here step xs m h ih =>
    simp only [List.cons_append, walkTurn, h] at walked ⊢
    exact ih walked
  | loop here step xs link target h => simp [walkTurn, h] at walked
  | follow links here step xs link target h ih =>
    simp only [List.cons_append, walkTurn, h, ← List.append_assoc] at walked ⊢
    obtain ⟨m, first, second⟩ := ih walked
    exact ⟨m, first, walkMore (Nat.le_succ links) second⟩

/-- A walk that arrives goes on from there, with the links that it has not followed yet. -/
theorem walkOnwards (walked : walk v .node links here xs = .ok l) :
    ∃ left ≤ links, ∀ ys, walk v .node links here (xs ++ ys) = walk v .node left l ys := by
  induction links, here, xs using walkInduct v with
  | done links here =>
    rw [walkNil] at walked
    obtain rfl := Except.ok.inj walked
    exact ⟨links, Nat.le_refl links, fun ys => rfl⟩
  | stop links here step xs e h => simp [walkTurn, h] at walked
  | on links here step xs m h ih =>
    simp only [walkTurn, h] at walked
    obtain ⟨left, few, onwards⟩ := ih walked
    refine ⟨left, few, fun ys => ?_⟩
    rw [List.cons_append, walkTurn, h]
    exact onwards ys
  | loop here step xs link target h => simp [walkTurn, h] at walked
  | follow links here step xs link target h ih =>
    simp only [walkTurn, h] at walked
    obtain ⟨left, few, onwards⟩ := ih walked
    refine ⟨left, Nat.le_succ_of_le few, fun ys => ?_⟩
    rw [List.cons_append, walkTurn, h]
    simp only [← List.append_assoc]
    exact onwards ys

def Follows (v : Volume) (l link : Location) : Prop :=
  ∃ directory name target rest links, link = directory ++ [.text name] ∧
    v.node? link = some (.link target) ∧
    walk v .node links (origin directory target) (route target ++ rest) = .ok l

theorem walkFollows (walked : walk v .node links here steps = .ok l) :
    ∀ m ∈ v.wayOver links here steps, m = l ∨ v.Follows l m := by
  induction links, here, steps using walkInduct v with
  | done links here =>
    intro m hm
    rw [walkNil] at walked
    rw [wayNil, List.mem_singleton] at hm
    exact .inl (hm.trans (Except.ok.inj walked))
  | stop links here step steps e h => simp [walkTurn, h] at walked
  | on links here step steps m h ih =>
    simp only [walkTurn, h] at walked
    simp only [wayTurn, h]
    exact ih walked
  | loop here step steps link target h => simp [walkTurn, h] at walked
  | follow links here step steps link target h ih =>
    simp only [walkTurn, h] at walked
    simp only [wayTurn, h]
    obtain ⟨_, place, found⟩ := turnFollow h
    intro m hm
    rcases List.mem_cons.mp hm with rfl | ahead
    · exact .inr ⟨here, step, target, steps, links, place, found, walked⟩
    · exact ih walked m ahead

section Name
variable {name : String} (proper : name ≠ "" ∧ name ≠ "." ∧ name ≠ "..")
  (short : name.utf8ByteSize ≤ nameLimit) (directory : v.node? l = some .directory)
include proper directory

theorem turnLong (long : nameLimit < name.utf8ByteSize) :
    v.turn l name = .stop .nameTooLong := by
  simp [turn, directory, proper, long]

include short

theorem turnLink {target : String} (found : v.node? (l ++ [.text name]) = some (.link target)) :
    v.turn l name = .follow (l ++ [.text name]) target := by
  simp [turn, directory, proper, Nat.not_lt.mpr short, found]

theorem turnPlain (plain : ∀ target, v.node? (l ++ [.text name]) ≠ some (.link target)) :
    v.turn l name = .on (l ++ [.text name]) := by
  simp only [turn, directory, proper.1, proper.2.1, proper.2.2, Nat.not_lt.mpr short, or_self,
    if_false]

theorem walkLastName (links : Nat) :
    walk v .name links l [name] = .ok (l ++ [.text name]) := by
  have step (jump : Location → List String → Except FileError Location) :
      walkWith v .name jump l [name] = .ok (l ++ [.text name]) := by
    simp only [walkWith, directory, proper.1, proper.2.1, proper.2.2,
      Nat.not_lt.mpr short, or_self, if_false, reduceCtorEq, and_self, if_true]
    cases v.node? (l ++ [.text name]) with
    | none => rfl
    | some n => cases n <;> rfl
  cases links with
  | zero => exact step _
  | succ links => exact step _

theorem walkName (walked : walk v .node links here steps = .ok l) :
    walk v .name links here (steps ++ [name]) = .ok (l ++ [.text name]) := by
  induction links, here, steps using walkInduct v with
  | done links here =>
    rw [walkNil] at walked
    obtain rfl := Except.ok.inj walked
    exact walkLastName proper short directory links
  | stop links here step steps e h => simp [walkTurn, h] at walked
  | on links here step steps m h ih =>
    simp only [walkTurn, h] at walked
    rw [List.cons_append, nameTurn _ (by simp), h]
    exact ih walked
  | loop here step steps link target h => simp [walkTurn, h] at walked
  | follow links here step steps link target h ih =>
    simp only [walkTurn, h] at walked
    rw [List.cons_append, nameTurn _ (by simp), h]
    simp only [← List.append_assoc]
    exact ih walked

theorem wayName (walked : walk v .node links here steps = .ok l) :
    l ++ [.text name] ∈ v.wayOver links here (steps ++ [name]) := by
  induction links, here, steps using walkInduct v with
  | done links here =>
    rw [walkNil] at walked
    obtain rfl := Except.ok.inj walked
    by_cases link : ∃ target, v.node? (here ++ [.text name]) = some (.link target)
    · obtain ⟨target, found⟩ := link
      rw [List.nil_append, wayTurn, turnLink proper short directory found]
      cases links with
      | zero => exact List.mem_singleton_self _
      | succ links => exact List.mem_cons_self
    · rw [List.nil_append, wayTurn, turnPlain proper short directory (not_exists.mp link)]
      simp only [wayNil]
      exact List.mem_singleton_self _
  | stop links here step steps e h => simp [walkTurn, h] at walked
  | on links here step steps m h ih =>
    simp only [walkTurn, h] at walked
    simp only [List.cons_append, wayTurn, h]
    exact ih walked
  | loop here step steps link target h => simp [walkTurn, h] at walked
  | follow links here step steps link target h ih =>
    simp only [walkTurn, h] at walked
    simp only [List.cons_append, wayTurn, h, ← List.append_assoc]
    exact List.mem_cons_of_mem _ (ih walked)

theorem wayLast (plain : ∀ target, v.node? (l ++ [.text name]) ≠ some (.link target))
    (walked : walk v .node links here steps = .ok l) :
    ∀ m ∈ v.wayOver links here (steps ++ [name]),
      m ∈ v.wayOver links here steps ∨ m = l ++ [.text name] := by
  induction links, here, steps using walkInduct v with
  | done links here =>
    rw [walkNil] at walked
    obtain rfl := Except.ok.inj walked
    intro m hm
    rw [List.nil_append, wayTurn, turnPlain proper short directory plain] at hm
    simp only [wayNil, List.mem_singleton] at hm
    exact .inr hm
  | stop links here step steps e h => simp [walkTurn, h] at walked
  | on links here step steps m h ih =>
    simp only [walkTurn, h] at walked
    simp only [List.cons_append, wayTurn, h]
    exact ih walked
  | loop here step steps link target h => simp [walkTurn, h] at walked
  | follow links here step steps link target h ih =>
    simp only [walkTurn, h] at walked
    simp only [List.cons_append, wayTurn, h, ← List.append_assoc]
    intro m hm
    rcases List.mem_cons.mp hm with rfl | ahead
    · exact .inl List.mem_cons_self
    · rcases ih walked m ahead with before | last
      · exact .inl (List.mem_cons_of_mem _ before)
      · exact .inr last

end Name
end Walks
end Volume
end BackupRotation
