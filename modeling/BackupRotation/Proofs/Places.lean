import BackupRotation.Settings.File
import BackupRotation.Volume.Walk
import Mathlib.Data.List.Basic
/-! Where the paths of the settings file lie beside each other: the directories above it are on its way,
and the temporary file has another name in the same directory. -/
namespace BackupRotation
namespace Path
open Text (joinSplit splitAll splitFree splitLast? splitLast?_append splitLast?_some splitAll_append)
open Volume (steps route origin endsInSlash)

/-- The parts of a path that are steps. -/
def named (ps : List (List Char)) : List String := (ps.filter fun part => part ≠ []).map String.ofList

theorem namedAppend (ps qs : List (List Char)) : named (ps ++ qs) = named ps ++ named qs := by
  simp [named]

theorem stepsNamed (p : String) : steps p = named (splitAll '/' p.toList) := rfl

theorem splitJoined {ps : List (List Char)} (free : ∀ part ∈ ps, '/' ∉ part) :
    named (splitAll '/' (['/'].intercalate ps)) = named ps := by
  cases ps with
  | nil => rfl
  | cons part ps => rw [Text.splitAll_intercalate (by simp) free]

theorem joinLast {ps : List (List Char)} (some : ps ≠ []) (part : List Char) :
    ['/'].intercalate (ps ++ [part]) = ['/'].intercalate ps ++ '/' :: part := by
  induction ps with
  | nil => exact absurd rfl some
  | cons first ps ih =>
    cases ps with
    | nil => simp [List.intercalate]
    | cons next ps =>
      have rest := ih (by simp)
      simp only [List.intercalate, List.cons_append, List.intersperse_cons_cons,
        List.flatten_cons] at rest ⊢
      rw [rest]
      simp

def Cut.text (c : Cut) : List Char := c.start ++ Path.parts c.parts

def Cut.front (c : Cut) : List String := if c.start = ['.'] then ["."] else []

/-- The parts lie behind the start as a cut leaves them, the first of them the last in the list. -/
structure Cut.Sound (c : Cut) : Prop where
  free : ∀ part ∈ c.parts, '/' ∉ part
  start : c.start = ['/'] ∨ (c.start = ['.'] ∧ ∀ part ∈ c.parts.getLast?, part = []) ∨
    (c.start = [] ∧ ∀ part ∈ c.parts.getLast?, part ≠ [])

section Cuts
variable {c : Cut} {ps : List (List Char)}

theorem cutText (t : List Char) : (cut t).text = t := by
  unfold cut
  split
  · simp [Cut.text, Path.parts, joinSplit]
  · rfl
  · rename_i rest
    have joined := joinSplit '/' ('/' :: rest)
    simpa [Cut.text, Path.parts] using joined
  · simp [Cut.text, Path.parts, joinSplit]

theorem cutSound {t : List Char} (filled : t ≠ []) : (cut t).Sound := by
  unfold cut
  split
  · exact ⟨by simpa using splitFree '/' _, .inl rfl⟩
  · exact ⟨by simp, .inr (.inl ⟨rfl, by simp⟩)⟩
  · refine ⟨by simpa using splitFree '/' _, .inr (.inl ⟨rfl, ?_⟩)⟩
    simp [splitAll]
  · rename_i absolute _ _
    refine ⟨by simpa using splitFree '/' _, .inr (.inr ⟨rfl, ?_⟩)⟩
    cases t with
    | nil => exact absurd rfl filled
    | cons d t =>
      have other : d ≠ '/' := fun same => absolute t (by rw [same])
      simp only [List.getLast?_reverse, splitAll, other, if_false]
      cases splitAll '/' t <;> simp

theorem soundPart (sound : c.Sound) (part : ps <:+ c.parts) : Cut.Sound ⟨c.start, ps⟩ := by
  refine ⟨fun x member => sound.free x (part.subset member), ?_⟩
  have last : ∀ x ∈ ps.getLast?, x ∈ c.parts.getLast? := by
    obtain ⟨before, whole⟩ := part
    intro x member
    rw [← whole, List.getLast?_append]
    rw [Option.mem_def.mp member]
    rfl
  rcases sound.start with absolute | ⟨current, first⟩ | ⟨relative, first⟩
  · exact .inl absolute
  · exact .inr (.inl ⟨current, fun x member => first x (last x member)⟩)
  · exact .inr (.inr ⟨relative, fun x member => first x (last x member)⟩)

theorem soundSteps (sound : c.Sound) :
    steps (String.ofList c.text) = c.front ++ named c.parts.reverse := by
  have free : ∀ part ∈ c.parts.reverse, '/' ∉ part := by simpa using sound.free
  have joined := splitJoined free
  rw [stepsNamed, String.toList_ofList, Cut.text, Cut.front, Path.parts]
  rcases sound.start with absolute | ⟨current, first⟩ | ⟨relative, first⟩
  · have split := splitAll_append '/' [] (['/'].intercalate c.parts.reverse)
    rw [absolute, List.singleton_append, ← List.nil_append ('/' :: _), split, namedAppend, joined]
    rfl
  · simp only [current, if_true]
    rw [← List.head?_reverse] at first
    cases behind : c.parts.reverse with
    | nil => rfl
    | cons part ps =>
      rw [behind] at first free
      obtain rfl := first part rfl
      cases ps with
      | nil => rfl
      | cons next ps =>
        have rest := splitJoined (List.forall_mem_cons.mp free).2
        have text : ['.'] ++ ['/'].intercalate ([] :: next :: ps) =
            ['.'] ++ '/' :: ['/'].intercalate (next :: ps) := by simp [List.intercalate]
        rw [text, splitAll_append, namedAppend, rest]
        rfl
  · rw [relative, List.nil_append, joined]
    rfl

theorem soundAbsolute (sound : c.Sound) :
    isAbsolute (String.ofList c.text) = decide (c.start = ['/']) := by
  rw [isAbsolute, String.toList_ofList, Cut.text, Path.parts]
  rcases sound.start with absolute | ⟨current, first⟩ | ⟨relative, first⟩
  · simp [absolute]
  · simp [current]
  · rw [← List.head?_reverse] at first
    rw [relative]
    cases behind : c.parts.reverse with
    | nil => rfl
    | cons part ps =>
      rw [behind] at first
      cases part with
      | nil => exact absurd rfl (first [] rfl)
      | cons d part =>
        have other : d ≠ '/' := by
          rintro rfl
          exact sound.free ('/' :: part) (by rw [← List.mem_reverse, behind]; exact List.mem_cons_self)
            List.mem_cons_self
        cases ps <;> simp [List.intercalate, other]

theorem frontSteps (sound : c.Sound) (part : ps <:+ c.parts) :
    steps (String.ofList (Cut.text ⟨c.start, ps⟩)) = c.front ++ named ps.reverse :=
  soundSteps (soundPart sound part)

theorem namedPrefix {qs : List (List Char)} (part : ps <:+ qs) : named ps.reverse <+: named qs.reverse :=
  ((List.reverse_prefix.mpr part).filter _).map _

end Cuts

section Above
variable {p q : String}

theorem cutPath (p : String) : String.ofList (cut p.toList).text = p := by
  rw [cutText, String.ofList_toList]

theorem pathSound (filled : p ≠ "") : (cut p.toList).Sound := cutSound (by simpa using filled)

theorem pathSteps (filled : p ≠ "") :
    steps p = (cut p.toList).front ++ named (cut p.toList).parts.reverse := by
  rw [← soundSteps (pathSound filled), cutPath]

theorem pathAbsolute (filled : p ≠ "") :
    isAbsolute p = decide ((cut p.toList).start = ['/']) := by
  rw [← soundAbsolute (pathSound filled), cutPath]

theorem partAbove (filled : p ≠ "") {ps : List (List Char)} (part : ps <:+ (cut p.toList).parts) :
    let q := String.ofList (Cut.text ⟨(cut p.toList).start, ps⟩)
    steps q = (cut p.toList).front ++ named ps.reverse ∧ isAbsolute q = isAbsolute p := by
  intro q
  have sound := pathSound filled
  exact ⟨frontSteps sound part, by rw [pathAbsolute filled, soundAbsolute (soundPart sound part)]⟩

theorem parentAbove (up : parent? p = some q) :
    q = "" ∨ (steps q <+: steps p ∧ isAbsolute q = isAbsolute p) := by
  have filled : p ≠ "" := by
    rintro rfl
    cases up
  simp only [parent?] at up
  split at up
  · rename_i x rest dropped
    have part : rest.dropWhile isVoid <:+ (cut p.toList).parts := by
      have behind : x :: rest <:+ (cut p.toList).parts := dropped ▸ List.dropWhile_suffix _
      exact (List.dropWhile_suffix _).trans ((List.suffix_cons x rest).trans behind)
    obtain ⟨way, root⟩ := partAbove filled part
    obtain rfl := Option.some.inj up
    refine .inr ⟨?_, root⟩
    rw [pathSteps filled]
    exact way ▸ (List.prefix_append_right_inj _).mpr (namedPrefix part)
  · split at up
    · exact .inl (Option.some.inj up).symm
    · cases up

theorem upwardSteps {fuel : Nat} : ∀ a ∈ upward fuel p, steps a <+: steps p ∧
    isAbsolute a = isAbsolute p := by
  induction fuel generalizing p with
  | zero => simp [upward]
  | succ fuel ih =>
    intro a member
    simp only [upward] at member
    split at member
    · cases member
    · cases up : parent? p with
      | none =>
        rw [up, List.mem_singleton] at member
        exact ⟨member ▸ List.prefix_rfl, by rw [member]⟩
      | some q =>
        rw [up] at member
        rcases List.mem_cons.mp member with rfl | above
        · exact ⟨List.prefix_rfl, rfl⟩
        · obtain ⟨way, root⟩ := ih a above
          rcases parentAbove up with rfl | ⟨way', root'⟩
          · cases fuel <;> cases above
          · exact ⟨way.trans way', root.trans root'⟩

theorem rootAlone (filled : p ≠ "") (nothing : steps p = []) : isAbsolute p = true := by
  cases text : p.toList with
  | nil => exact absurd (by simpa using text) filled
  | cons c cs =>
    by_cases slash : c = '/'
    · simp [isAbsolute, text, slash]
    · simp only [steps, text, splitAll, slash, if_false] at nothing
      cases parts : splitAll '/' cs with
      | nil => simp [parts] at nothing
      | cons part ps => simp [parts] at nothing

theorem originSame (here : Location) (same : isAbsolute p = isAbsolute q) :
    origin here p = origin here q := by
  have alike : p.toList.head? = some '/' ↔ q.toList.head? = some '/' := by
    rw [isAbsolute, isAbsolute] at same
    rw [← beq_iff_eq, same, beq_iff_eq]
  simp only [origin, alike]

end Above

theorem slashBehind {path : String} {rest : List (List Char)}
    (behind : (cut path.toList).parts = [] :: rest) :
    endsInSlash path = true ∨ (cut path.toList).start ≠ ['/'] ∧ rest = [] := by
  have text : (cut path.toList).text = path.toList := cutText _
  rw [Cut.text, Path.parts, behind, List.reverse_cons] at text
  by_cases alone : rest = []
  · by_cases absolute : (cut path.toList).start = ['/']
    · rw [absolute, alone] at text
      rw [endsInSlash, ← text]
      exact .inl rfl
    · exact .inr ⟨absolute, alone⟩
  · rw [joinLast (by simpa using alone)] at text
    rw [endsInSlash, ← text]
    exact .inl (by simp)

/-- What becomes of a last name with another extension. -/
def renamed (name extension : List Char) : List Char :=
  if stem name = ['.'] then ['.', '.'] else stem name ++ '.' :: extension

theorem stemCases (name : List Char) :
    stem name = name ∨ ∃ old, name = stem name ++ '.' :: old ∧ '.' ∉ old := by
  unfold stem
  split
  · exact .inl rfl
  · rename_i before old _ found
    exact .inr ⟨old, splitLast?_some found⟩
  · exact .inl rfl

theorem renamedFree {name extension : List Char} (free : '/' ∉ name) (inside : '/' ∉ extension) :
    '/' ∉ renamed name extension := by
  have free : '/' ∉ stem name := by
    rcases stemCases name with whole | ⟨old, whole, _⟩
    · rwa [whole]
    · intro slash
      exact free (whole ▸ List.mem_append_left _ slash)
  unfold renamed
  split
  · decide
  · simp [free, inside]

/-- An extension with a dot in it is not the one that a name has. -/
theorem renamedOther {name extension : List Char} (up : name ≠ ['.', '.']) (dotted : '.' ∈ extension) :
    renamed name extension ≠ name := by
  unfold renamed
  split
  · exact Ne.symm up
  · intro same
    rcases stemCases name with whole | ⟨old, whole, undotted⟩
    · rw [whole] at same
      simpa using congrArg List.length same
    · have tails := List.append_cancel_left (same.trans whole)
      rw [(List.cons.inj tails).2] at dotted
      exact undotted dotted

theorem renamedProper (name : List Char) {extension : List Char} (some : extension ≠ []) :
    renamed name extension ≠ [] ∧ renamed name extension ≠ ['.'] := by
  unfold renamed
  split
  · decide
  · constructor
    · simp
    · intro same
      have := congrArg List.length same
      cases extension with
      | nil => exact some rfl
      | cons c cs => simp at this; omega

theorem openEnd {start last : List Char} {rest : List (List Char)} (some : last ≠ [])
    (free : '/' ∉ last) : endsInSlash (String.ofList (Cut.text ⟨start, last :: rest⟩)) = false := by
  obtain ⟨before, text⟩ : ∃ before, Cut.text ⟨start, last :: rest⟩ = before ++ last := by
    rw [Cut.text, Path.parts, List.reverse_cons]
    by_cases alone : rest = []
    · exact ⟨start, by simp [alone, List.intercalate]⟩
    · rw [joinLast (by simpa using alone)]
      exact ⟨start ++ (['/'].intercalate rest.reverse ++ ['/']), by simp⟩
  rw [endsInSlash, String.toList_ofList, text, List.getLast?_append_of_ne_nil _ some,
    List.getLast?_eq_some_getLast some]
  have other : last.getLast some ≠ '/' := fun same => free (same ▸ List.getLast_mem some)
  simpa using other

section Named
variable {path name : String} {before : List String}
  (ends : route path = before ++ [name]) (seen : name ≠ "" ∧ name ≠ ".")
include ends seen

theorem namedSteps : endsInSlash path = false ∧ steps path = before ++ [name] := by
  unfold route at ends
  split at ends
  · exact absurd (List.append_inj' ends rfl).2 (by simpa using Ne.symm seen.1)
  · rename_i slash
    exact ⟨by simpa using slash, ends⟩

theorem namedFilled : path ≠ "" := by
  rintro rfl
  have nothing := (namedSteps ends seen).2
  simp [stepsNamed, named, splitAll] at nothing

omit ends in
theorem frontUnnamed (c : Cut) : c.front ≠ before ++ [name] := by
  intro same
  unfold Cut.front at same
  split at same
  · have last := (List.append_inj' (show [] ++ ["."] = before ++ [name] from same) rfl).2
    exact seen.2 (List.singleton_inj.mp last).symm
  · simp at same

theorem namedCut : ∃ rest, (cut path.toList).parts = name.toList :: rest ∧
    before = (cut path.toList).front ++ named rest.reverse := by
  obtain ⟨slash, way⟩ := namedSteps ends seen
  rw [pathSteps (namedFilled ends seen)] at way
  have unnamed : (cut path.toList).front ≠ before ++ [name] := frontUnnamed seen _
  cases behind : (cut path.toList).parts with
  | nil =>
    rw [behind] at way
    exact absurd ((List.append_nil _).symm.trans way) unnamed
  | cons part rest =>
    rw [behind, List.reverse_cons, namedAppend] at way
    by_cases void : part = []
    · rcases slashBehind (void ▸ behind) with slashed | ⟨_, rfl⟩
      · cases slash.symm.trans slashed
      · rw [void] at way
        exact absurd ((List.append_nil _).symm.trans way) unnamed
    · have single : named [part] = [String.ofList part] := by simp [named, void]
      rw [single, ← List.append_assoc] at way
      obtain ⟨same, last⟩ := List.append_inj' way rfl
      have text : part = name.toList := by
        rw [← List.singleton_inj.mp last, String.toList_ofList]
      exact ⟨rest, by rw [text], same.symm⟩

omit ends in
theorem visibleName : isVoid name.toList = false := by
  simp only [isVoid, Bool.or_eq_false_iff, beq_eq_false_iff_ne]
  exact ⟨by simpa using seen.1, fun same => seen.2 (String.toList_injective same)⟩

theorem parentNamed : ∃ q, parent? path = some q ∧
    ∀ a ∈ ancestors q, steps a <+: before ∧ isAbsolute a = isAbsolute path := by
  obtain ⟨rest, behind, way⟩ := namedCut ends seen
  have part : rest.dropWhile isVoid <:+ rest := List.dropWhile_suffix _
  obtain ⟨above, root⟩ := partAbove (namedFilled ends seen)
    (part.trans (behind ▸ List.suffix_cons name.toList rest))
  refine ⟨String.ofList (Cut.text ⟨(cut path.toList).start, rest.dropWhile isVoid⟩), ?_,
    fun a member => ?_⟩
  · simp only [parent?, behind, List.dropWhile_cons, visibleName seen]
    rfl
  · obtain ⟨up, root'⟩ := upwardSteps a member
    refine ⟨up.trans ?_, root'.trans root⟩
    rw [way]
    exact above ▸ (List.prefix_append_right_inj _).mpr (namedPrefix part)

theorem extensionUp (up : name = "..") (extension : String) : withExtension path extension = path := by
  obtain ⟨rest, behind, _⟩ := namedCut ends seen
  have leads : name.toList = ['.', '.'] := by rw [up]; rfl
  have visible := visibleName seen
  rw [leads] at behind visible
  simp only [withExtension, behind, List.dropWhile_cons, visible, Bool.false_eq_true, if_false, if_true]

omit ends in
theorem soundRenamed {c : Cut} {rest : List (List Char)} {last : List Char} (sound : c.Sound)
    (behind : c.parts = name.toList :: rest) (some : last ≠ []) (free : '/' ∉ last) :
    Cut.Sound ⟨c.start, last :: rest⟩ := by
  have all := sound.free
  have start := sound.start
  rw [behind] at all start
  refine ⟨List.forall_mem_cons.mpr ⟨free, (List.forall_mem_cons.mp all).2⟩, ?_⟩
  cases rest with
  | nil =>
    rcases start with absolute | ⟨current, first⟩ | ⟨relative, _⟩
    · exact .inl absolute
    · exact absurd (first _ rfl) (by simpa using seen.1)
    · exact .inr (.inr ⟨relative, fun part member => by cases member; exact some⟩)
  | cons next rest => simpa only [List.getLast?_cons_cons] using start

/-- With another extension the last name of a path is another one, if the extension has a dot in it. It
can be one that leads up. -/
theorem extensionNamed (leads : name ≠ "..") (extension : String) (dotted : '.' ∈ extension.toList)
    (inside : '/' ∉ extension.toList) :
    ∃ last, last ≠ name ∧ (last = ".." ∨ last ≠ "" ∧ last ≠ "." ∧ last ≠ "..") ∧
      route (withExtension path extension) = before ++ [last] ∧
        isAbsolute (withExtension path extension) = isAbsolute path := by
  obtain ⟨rest, behind, way⟩ := namedCut ends seen
  have filled := namedFilled ends seen
  have sound := pathSound filled
  have up : name.toList ≠ ['.', '.'] := fun same => leads (String.toList_injective same)
  have text : withExtension path extension = String.ofList
      (Cut.text ⟨(cut path.toList).start, renamed name.toList extension.toList :: rest⟩) := by
    simp only [withExtension, behind, List.dropWhile_cons, visibleName seen, Bool.false_eq_true,
      if_false, up, List.head?_cons, and_true, renamed, Cut.text]
  have free : '/' ∉ name.toList := sound.free _ (behind ▸ List.mem_cons_self)
  have free' := renamedFree free inside
  obtain ⟨some, dot⟩ := renamedProper name.toList (List.ne_nil_of_mem dotted)
  have sound' := soundRenamed seen sound behind some free'
  refine ⟨String.ofList (renamed name.toList extension.toList), ?_, ?_, ?_, ?_⟩
  · intro same
    have chars := congrArg String.toList same
    rw [String.toList_ofList] at chars
    exact renamedOther up dotted chars
  · by_cases up' : String.ofList (renamed name.toList extension.toList) = ".."
    · exact .inl up'
    · refine .inr ⟨?_, ?_, up'⟩
      · intro same
        exact some (by simpa using congrArg String.toList same)
      · intro same
        exact dot (by simpa using congrArg String.toList same)
  · have steps' := soundSteps sound'
    have single : named [renamed name.toList extension.toList] =
        [String.ofList (renamed name.toList extension.toList)] := by simp [named, some]
    rw [route, text, openEnd some free', steps', List.reverse_cons, namedAppend, single,
      ← List.append_assoc, way]
    rfl
  · rw [text, soundAbsolute sound', pathAbsolute filled]

end Named

end Path
end BackupRotation
