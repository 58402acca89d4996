import BackupRotation.Text.Blank
import BackupRotation.Text.Split
import Mathlib.Data.List.DropRight
import Mathlib.Data.List.TakeWhile
import Mathlib.Tactic
/-! Texts with blanks around them. Trimming takes the blanks at both ends and none between, so it does not
reach across a separator that shows; letters are made small before it or after it alike. -/
namespace BackupRotation.Text

def Blank (cs : List Char) : Prop := ∀ c ∈ cs, isBlank c = true
def Visible (cs : List Char) : Prop := ∀ c ∈ cs, isBlank c = false

section Ends
variable {cs before word after a b : List Char} {sep : Char}

theorem skipBlanksBehind (blank : Blank before) : skipBlanks (before ++ cs) = skipBlanks cs :=
  List.dropWhile_append_of_pos blank

theorem skipBlanksBlank (blank : Blank cs) : skipBlanks cs = [] := by
  rw [← List.append_nil cs, skipBlanksBehind blank, skipBlanksNil]

theorem blankReverse (blank : Blank cs) : Blank cs.reverse :=
  fun c member => blank c (List.mem_reverse.mp member)

/-- Blanks only, or the first character that shows with the blanks before it. -/
theorem blankOr (cs : List Char) :
    Blank cs ∨ ∃ before c rest, Blank before ∧ isBlank c = false ∧ cs = before ++ c :: rest := by
  induction cs with
  | nil => exact .inl nofun
  | cons c cs ih =>
    by_cases blank : isBlank c = true
    · rcases ih with all | ⟨before, d, rest, front, shown, rfl⟩
      · exact .inl (List.forall_mem_cons.mpr ⟨blank, all⟩)
      · exact .inr ⟨c :: before, d, rest, List.forall_mem_cons.mpr ⟨blank, front⟩, shown, rfl⟩
    · exact .inr ⟨[], c, cs, nofun, Bool.eq_false_iff.mpr blank, rfl⟩

theorem skipBlanksAcross (shown : isBlank sep = false) :
    skipBlanks (a ++ sep :: b) = skipBlanks a ++ sep :: b := by
  rcases blankOr a with blank | ⟨before, c, rest, blank, first, rfl⟩
  · rw [skipBlanksBehind blank, skipBlanksBlank blank, skipBlanksOfNot b shown, List.nil_append]
  · rw [List.append_assoc, skipBlanksBehind blank, skipBlanksBehind blank, List.cons_append,
      skipBlanksOfNot _ first, skipBlanksOfNot _ first, List.cons_append]

theorem trimEndAcross (shown : isBlank sep = false) : trimEnd (a ++ sep :: b) = a ++ sep :: trimEnd b := by
  have turned : (a ++ sep :: b).reverse = b.reverse ++ sep :: a.reverse := by simp
  rw [trimEnd, turned, skipBlanksAcross shown]
  simp [trimEnd]

theorem trimEndBlank (blank : Blank cs) : trimEnd cs = [] := by
  rw [trimEnd, skipBlanksBlank (blankReverse blank), List.reverse_nil]

theorem trimAcross (shown : isBlank sep = false) : trim (a ++ sep :: b) = skipBlanks a ++ sep :: trimEnd b := by
  rw [trim, skipBlanksAcross shown, trimEndAcross shown]

theorem skipBlanksTwice (cs : List Char) : skipBlanks (skipBlanks cs) = skipBlanks cs :=
  List.dropWhile_idempotent isBlank cs

theorem trimEndTwice (cs : List Char) : trimEnd (trimEnd cs) = trimEnd cs := by
  rw [trimEnd, trimEnd, List.reverse_reverse, skipBlanksTwice]

theorem skipTrimEnd (cs : List Char) : skipBlanks (trimEnd cs) = trim cs := by
  rcases blankOr cs with blank | ⟨before, c, rest, blank, shown, rfl⟩
  · rw [trim, trimEndBlank blank, skipBlanksBlank blank]
    rfl
  · rw [trimEndAcross shown, trimAcross shown, skipBlanksAcross shown]

theorem trimSkip (cs : List Char) : trim (skipBlanks cs) = trim cs := by rw [trim, skipBlanksTwice, trim]

theorem trimTrimEnd (cs : List Char) : trim (trimEnd cs) = trim cs := by
  rw [trim, skipTrimEnd, trim, trimEndTwice]

theorem trimTwice (cs : List Char) : trim (trim cs) = trim cs :=
  (trimTrimEnd (skipBlanks cs)).trans (trimSkip cs)

theorem visibleChecked (each : cs.all (fun c => !isBlank c) = true) : Visible cs := by
  simpa [Visible] using each

theorem visibleSkip (visible : Visible cs) : skipBlanks cs = cs := by
  cases cs with
  | nil => rfl
  | cons c cs => exact skipBlanksOfNot cs (visible c List.mem_cons_self)

theorem visibleReverse (visible : Visible cs) : Visible cs.reverse :=
  fun c member => visible c (List.mem_reverse.mp member)

theorem visibleTrim (visible : Visible cs) : trim cs = cs := by
  rw [trim, visibleSkip visible, trimEnd, visibleSkip (visibleReverse visible), List.reverse_reverse]

theorem trimEndBefore (blank : Blank after) : trimEnd (cs ++ after) = trimEnd cs := by
  rw [trimEnd, List.reverse_append, skipBlanksBehind (blankReverse blank), trimEnd]

theorem trimSurrounded (front : Blank before) (back : Blank after) :
    trim (before ++ word ++ after) = trim word := by
  rw [List.append_assoc, trim, skipBlanksBehind front, ← trim, ← trimTrimEnd, trimEndBefore back, trimTrimEnd]

theorem skipBlanksCut (cs : List Char) : ∃ before, Blank before ∧ cs = before ++ skipBlanks cs :=
  ⟨cs.takeWhile isBlank, fun _ => List.mem_takeWhile_imp, List.takeWhile_append_dropWhile.symm⟩

theorem trimCut (cs : List Char) :
    ∃ before after, Blank before ∧ Blank after ∧ cs = before ++ trim cs ++ after := by
  obtain ⟨before, front, whole⟩ := skipBlanksCut cs
  obtain ⟨after, back, turned⟩ := skipBlanksCut (skipBlanks cs).reverse
  have rest : skipBlanks cs = trim cs ++ after.reverse := by
    rw [trim, trimEnd, ← List.reverse_append, ← turned, List.reverse_reverse]
  exact ⟨before, after.reverse, front, blankReverse back, by rw [List.append_assoc, ← rest, ← whole]⟩

theorem skipFree (free : sep ∉ cs) : sep ∉ skipBlanks cs :=
  fun member => free ((List.dropWhile_sublist isBlank).subset member)

theorem trimEndFree (free : sep ∉ cs) : sep ∉ trimEnd cs :=
  fun member => skipFree (mt List.mem_reverse.mp free) (List.mem_reverse.mp member)

theorem memTrim (shown : isBlank sep = false) : sep ∈ trim cs ↔ sep ∈ cs := by
  obtain ⟨before, after, front, back, whole⟩ := trimCut cs
  have other {blanks : List Char} (blank : Blank blanks) : sep ∉ blanks :=
    fun member => Bool.false_ne_true (shown.symm.trans (blank sep member))
  conv_rhs => rw [whole]
  simp [other front, other back]

end Ends

section Case
variable {token word cs : List Char} {sep : Char}

theorem lowerCode (c : Char) :
    c.toLower = c ∨ 65 ≤ c.toNat ∧ c.toNat ≤ 90 ∧ c.toLower.toNat = c.toNat + 32 := by
  unfold Char.toLower
  split
  · rename_i capital
    have least : 65 ≤ c.toNat := UInt32.le_iff_toNat_le.mp capital.1
    have greatest : c.toNat ≤ 90 := UInt32.le_iff_toNat_le.mp capital.2
    have moved : (c.val + ('a'.val - 'A'.val)).toNat = c.toNat + 32 := by
      have room : c.val.toNat + 32 < 2 ^ 32 := by
        change c.toNat + 32 < 2 ^ 32
        omega
      rw [UInt32.toNat_add]
      exact Nat.mod_eq_of_lt room
    exact .inr ⟨least, greatest, moved⟩
  · exact .inl rfl

theorem letterVisible {c : Char} (least : 65 ≤ c.toNat) (greatest : c.toNat ≤ 122) : isBlank c = false := by
  simp only [isBlank, Bool.or_eq_false_iff, Bool.and_eq_false_iff, decide_eq_false_iff_not,
    beq_eq_false_iff_ne]
  omega

theorem blankLower (c : Char) : isBlank c.toLower = isBlank c := by
  rcases lowerCode c with same | ⟨least, greatest, moved⟩
  · rw [same]
  · rw [letterVisible least (by omega), letterVisible (by omega) (by omega)]

theorem lowerTwice (cs : List Char) : lower (lower cs) = lower cs := by
  have once (c : Char) : c.toLower.toLower = c.toLower := by
    rcases lowerCode c with same | ⟨least, _, moved⟩
    · rw [same, same]
    · rcases lowerCode c.toLower with same | ⟨_, greatest, _⟩
      · exact same
      · omega
  rw [lower, lower, List.map_map]
  exact List.map_congr_left fun c _ => once c

theorem skipBlanksLower (cs : List Char) : skipBlanks (lower cs) = lower (skipBlanks cs) := by
  have same : isBlank ∘ Char.toLower = isBlank := funext blankLower
  rw [skipBlanks, lower, List.dropWhile_map, same, lower, skipBlanks]

theorem trimLower (cs : List Char) : trim (lower cs) = lower (trim cs) := by
  have turned (cs : List Char) : (lower cs).reverse = lower cs.reverse := List.map_reverse.symm
  rw [trim, trimEnd, skipBlanksLower, turned, skipBlanksLower, turned, trim, trimEnd]

/-- The characters between the blanks, with small letters. -/
def normal (cs : List Char) : List Char := lower (trim cs)

/-- The token stands in the text in letters of either case, with blanks around it. -/
def Spelt (token cs : List Char) : Prop :=
  ∃ before word after, Blank before ∧ Blank after ∧ lower word = token ∧ cs = before ++ word ++ after

theorem visibleLower (visible : Visible (lower word)) : Visible word :=
  fun c member => (blankLower c).symm.trans (visible c.toLower (List.mem_map_of_mem member))

theorem normalIff (visible : Visible token) : normal cs = token ↔ Spelt token cs := by
  constructor
  · intro same
    obtain ⟨before, after, front, back, whole⟩ := trimCut cs
    exact ⟨before, trim cs, after, front, back, same, whole⟩
  · rintro ⟨before, word, after, front, back, rfl, rfl⟩
    rw [normal, trimSurrounded front back, visibleTrim (visibleLower visible)]

theorem trimNormal (cs : List Char) : trim (normal cs) = normal cs := by
  rw [normal, trimLower, trimTwice]

theorem trimOfLower (cs : List Char) : trim (lower cs) = normal cs := trimLower cs

theorem normalSkip (cs : List Char) : normal (skipBlanks cs) = normal cs := by rw [normal, trimSkip, normal]

theorem normalTrimEnd (cs : List Char) : normal (trimEnd cs) = normal cs := by rw [normal, trimTrimEnd, normal]

end Case

/-- A character that shows and has no case. -/
structure Separates (sep : Char) : Prop where
  shown : isBlank sep = false
  caseless : ∀ c : Char, c.toLower = sep ↔ c = sep

section Cuts
variable {sep : Char} {token cs a b : List Char}

theorem separatesCode (shown : isBlank sep = false) (code : sep.toNat < 65) : Separates sep where
  shown := shown
  caseless c := by
    rcases lowerCode c with same | ⟨least, greatest, moved⟩
    · rw [same]
    · constructor
      · rintro rfl
        omega
      · rintro rfl
        omega

theorem memLower (separates : Separates sep) : sep ∈ lower cs ↔ sep ∈ cs := by
  simp [lower, separates.caseless]

theorem memNormal (separates : Separates sep) : sep ∈ normal cs ↔ sep ∈ cs := by
  rw [normal, memLower separates, memTrim separates.shown]

theorem speltFree (separates : Separates sep) (visible : Visible token) (free : sep ∉ token)
    (spelt : Spelt token cs) : sep ∉ cs := by
  rw [← memNormal separates, (normalIff visible).mpr spelt]
  exact free

theorem lowerAcross (separates : Separates sep) : lower (a ++ sep :: b) = lower a ++ sep :: lower b := by
  simp [lower, (separates.caseless sep).mpr rfl]

theorem normalAcross (separates : Separates sep) :
    normal (a ++ sep :: b) = lower (skipBlanks a) ++ sep :: lower (trimEnd b) := by
  rw [normal, trimAcross separates.shown, lowerAcross separates]

/-- A text is cut at the same place before its blanks are taken and its letters made small. -/
theorem splitNormal (separates : Separates sep) (free : sep ∉ a) (b : List Char) :
    ∃ name count, splitFirst? sep (normal (a ++ sep :: b)) = some (name, count) ∧
      trim name = normal a ∧ trim count = normal b := by
  have front : sep ∉ lower (skipBlanks a) := mt (memLower separates).mp (skipFree free)
  refine ⟨_, _, (normalAcross separates).symm ▸ splitFirst?_append _ front, ?_, ?_⟩
  · rw [trimOfLower, normalSkip]
  · rw [trimOfLower, normalTrimEnd]

/-- A text without the separator, or the text before the first one and that behind it. -/
theorem cutInduction (sep : Char) {motive : List Char → Prop} (whole : ∀ a, sep ∉ a → motive a)
    (cut : ∀ a b, sep ∉ a → motive b → motive (a ++ sep :: b)) (cs : List Char) : motive cs := by
  by_cases member : sep ∈ cs
  · obtain ⟨a, b, cuts, free⟩ := List.eq_append_cons_of_mem member
    rw [cuts]
    exact cut a b free (cutInduction sep whole cut b)
  · exact whole cs member
termination_by cs.length
decreasing_by
  rw [cuts, List.length_append, List.length_cons]
  omega

theorem splitAllEnd (separates : Separates sep) (cs : List Char) :
    (splitAll sep (lower (trimEnd cs))).map trim = (splitAll sep cs).map normal := by
  induction cs using cutInduction sep with
  | whole a free =>
    have none : sep ∉ lower (trimEnd a) := mt (memLower separates).mp (trimEndFree free)
    rw [splitAll_whole none, splitAll_whole free]
    simp [trimOfLower, normalTrimEnd]
  | cut a b free ih =>
    have none : sep ∉ lower a := mt (memLower separates).mp free
    rw [trimEndAcross separates.shown, lowerAcross separates, splitAll_append, splitAll_append,
      splitAll_whole none, splitAll_whole free, List.map_append, ih]
    simp [trimOfLower]

theorem splitAllSkip (shown : isBlank sep = false) (cs : List Char) :
    (splitAll sep (skipBlanks cs)).map normal = (splitAll sep cs).map normal := by
  by_cases member : sep ∈ cs
  · obtain ⟨a, b, rfl, free⟩ := List.eq_append_cons_of_mem member
    rw [skipBlanksAcross shown, splitAll_append, splitAll_append, splitAll_whole free,
      splitAll_whole (skipFree free)]
    simp [normalSkip]
  · simp [splitAll_whole member, splitAll_whole (skipFree member), normalSkip]

theorem splitAllNormal (separates : Separates sep) (cs : List Char) :
    (splitAll sep (normal cs)).map trim = (splitAll sep cs).map normal :=
  (splitAllEnd separates (skipBlanks cs)).trans (splitAllSkip separates.shown cs)

end Cuts
end BackupRotation.Text
