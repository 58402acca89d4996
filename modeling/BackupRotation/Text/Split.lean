/-! Cutting a text at a separator: at its first place, at its last place, or at all of them. -/
namespace BackupRotation.Text

def splitFirst? (sep : Char) : List Char → Option (List Char × List Char)
  | [] => none
  | c :: cs =>
    if c = sep then some ([], cs)
    else (splitFirst? sep cs).map fun (a, b) => (c :: a, b)

def splitLast? (sep : Char) : List Char → Option (List Char × List Char)
  | [] => none
  | c :: cs =>
    match splitLast? sep cs with
    | some (a, b) => some (c :: a, b)
    | none => if c = sep then some ([], cs) else none

def splitAll (sep : Char) : List Char → List (List Char)
  | [] => [[]]
  | c :: cs =>
    if c = sep then [] :: splitAll sep cs
    else
      match splitAll sep cs with
      | [] => [[c]]
      | part :: parts => (c :: part) :: parts

def afterStart? : (head text : List Char) → Option (List Char)
  | [], text => some text
  | _ :: _, [] => none
  | h :: hs, c :: cs => if h = c then afterStart? hs cs else none

theorem splitFirst?_append {sep : Char} {a : List Char} (b : List Char) (h : sep ∉ a) :
    splitFirst? sep (a ++ sep :: b) = some (a, b) := by
  induction a with
  | nil => simp [splitFirst?]
  | cons c a ih =>
    simp only [List.mem_cons, not_or] at h
    simp [splitFirst?, ih h.2, Ne.symm h.1]

theorem splitFirst?_none {sep : Char} {a : List Char} (h : sep ∉ a) : splitFirst? sep a = none := by
  induction a with
  | nil => rfl
  | cons c a ih =>
    simp only [List.mem_cons, not_or] at h
    simp [splitFirst?, ih h.2, Ne.symm h.1]

theorem splitFirst?_some {sep : Char} {t a b : List Char} (h : splitFirst? sep t = some (a, b)) :
    t = a ++ sep :: b ∧ sep ∉ a := by
  induction t generalizing a with
  | nil => simp [splitFirst?] at h
  | cons c t ih =>
    by_cases hc : c = sep
    · simp [splitFirst?, hc] at h
      simp [hc, h]
    · simp only [splitFirst?, hc, if_false, Option.map_eq_some_iff] at h
      obtain ⟨⟨x, y⟩, hxy, heq⟩ := h
      cases heq
      obtain ⟨rfl, hn⟩ := ih hxy
      exact ⟨rfl, by simp [Ne.symm hc, hn]⟩

theorem splitFirst?_free {sep : Char} {t : List Char} (h : splitFirst? sep t = none) : sep ∉ t := by
  induction t with
  | nil => simp
  | cons c t ih =>
    by_cases hc : c = sep
    · simp [splitFirst?, hc] at h
    · simp only [splitFirst?, hc, if_false, Option.map_eq_none_iff] at h
      simp [Ne.symm hc, ih h]

theorem splitLast?_append {sep : Char} (a : List Char) {b : List Char} (h : sep ∉ b) :
    splitLast? sep (a ++ sep :: b) = some (a, b) := by
  have none_of : splitLast? sep b = none := by
    induction b with
    | nil => rfl
    | cons c b ih =>
      simp only [List.mem_cons, not_or] at h
      simp [splitLast?, ih h.2, Ne.symm h.1]
  induction a with
  | nil => simp [splitLast?, none_of]
  | cons c a ih => simp [splitLast?, ih]

theorem splitLast?_free {sep : Char} {t : List Char} (h : splitLast? sep t = none) : sep ∉ t := by
  induction t with
  | nil => simp
  | cons c t ih =>
    simp only [splitLast?] at h
    cases later : splitLast? sep t with
    | some parts => simp [later] at h
    | none =>
      simp only [later, ite_eq_right_iff, reduceCtorEq] at h
      simp [ih later, Ne.symm h]

theorem splitLast?_some {sep : Char} {t a b : List Char} (h : splitLast? sep t = some (a, b)) :
    t = a ++ sep :: b ∧ sep ∉ b := by
  induction t generalizing a b with
  | nil => simp [splitLast?] at h
  | cons c t ih =>
    simp only [splitLast?] at h
    cases later : splitLast? sep t with
    | some parts =>
      obtain ⟨x, y⟩ := parts
      obtain ⟨cut, free⟩ := ih later
      simp only [later, Option.some.injEq, Prod.mk.injEq] at h
      obtain ⟨rfl, rfl⟩ := h
      exact ⟨congrArg (c :: ·) cut, free⟩
    | none =>
      simp only [later, Option.ite_none_right_eq_some, Option.some.injEq, Prod.mk.injEq] at h
      obtain ⟨rfl, rfl, rfl⟩ := h
      exact ⟨rfl, splitLast?_free later⟩

theorem splitAllNonempty (sep : Char) (t : List Char) : splitAll sep t ≠ [] := by
  cases t with
  | nil => simp [splitAll]
  | cons c t =>
    simp only [splitAll]
    split
    · simp
    · split <;> simp

theorem splitAll_append (sep : Char) (a b : List Char) :
    splitAll sep (a ++ sep :: b) = splitAll sep a ++ splitAll sep b := by
  induction a with
  | nil => simp [splitAll]
  | cons c a ih =>
    by_cases h : c = sep
    · simp [splitAll, h, ih]
    · simp only [List.cons_append, splitAll, h, if_false, ih]
      cases parts : splitAll sep a with
      | nil => exact absurd parts (splitAllNonempty sep a)
      | cons part parts => rfl

theorem splitAll_whole {sep : Char} {a : List Char} (h : sep ∉ a) : splitAll sep a = [a] := by
  induction a with
  | nil => rfl
  | cons c a ih =>
    simp only [List.mem_cons, not_or] at h
    simp [splitAll, ih h.2, Ne.symm h.1]

theorem splitAll_intercalate {sep : Char} {parts : List (List Char)} (filled : parts ≠ [])
    (free : ∀ part ∈ parts, sep ∉ part) : splitAll sep ([sep].intercalate parts) = parts := by
  induction parts with
  | nil => exact absurd rfl filled
  | cons part parts ih =>
    obtain ⟨first, rest⟩ := List.forall_mem_cons.mp free
    cases parts with
    | nil => simp [splitAll_whole first]
    | cons next parts =>
      have joined : [sep].intercalate (part :: next :: parts) =
          part ++ sep :: [sep].intercalate (next :: parts) := by simp [List.intercalate]
      rw [joined, splitAll_append, splitAll_whole first, ih nofun rest]
      rfl

theorem splitFree (sep : Char) (t : List Char) : ∀ part ∈ splitAll sep t, sep ∉ part := by
  induction t with
  | nil => simp [splitAll]
  | cons c t ih =>
    simp only [splitAll]
    split
    · simpa using ih
    · rename_i other
      cases parts : splitAll sep t with
      | nil => simpa using Ne.symm other
      | cons part ps =>
        rw [parts] at ih
        obtain ⟨first, rest⟩ := List.forall_mem_cons.mp ih
        refine List.forall_mem_cons.mpr ⟨?_, rest⟩
        simp [first, Ne.symm other]

theorem joinSplit (sep : Char) (t : List Char) : [sep].intercalate (splitAll sep t) = t := by
  induction t with
  | nil => rfl
  | cons c t ih =>
    simp only [splitAll]
    cases parts : splitAll sep t with
    | nil => exact absurd parts (splitAllNonempty sep t)
    | cons part ps =>
      rw [parts] at ih
      split
      · rename_i same
        rw [← ih, same]
        cases ps <;> simp [List.intercalate]
      · rw [← ih]
        cases ps <;> simp [List.intercalate]

theorem afterStart?_append (head text : List Char) : afterStart? head (head ++ text) = some text := by
  induction head with
  | nil => cases text <;> rfl
  | cons h hs ih => simp [afterStart?, ih]

theorem afterStart?_some {head text rest : List Char} (h : afterStart? head text = some rest) :
    text = head ++ rest := by
  induction head generalizing text with
  | nil => simpa [afterStart?, eq_comm] using h
  | cons c head ih =>
    cases text with
    | nil => simp [afterStart?] at h
    | cons d text =>
      simp only [afterStart?, Option.ite_none_right_eq_some] at h
      rw [h.1, ih h.2, List.cons_append]

end BackupRotation.Text
