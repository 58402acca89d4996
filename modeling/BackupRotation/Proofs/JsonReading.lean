import BackupRotation.Json.Read
import BackupRotation.Json.Write
import BackupRotation.Proofs.Numerals
import Mathlib.Data.List.DropRight
/-! Reading of JSON text by its parts. A text that is read as a value is so read before anything that
does not carry a number on, with blanks around it or none; from this the text of a value, on one line
or on several, gives the value back. -/
namespace BackupRotation
namespace Json
open Text (digits digitOther digitsAll digitsFilled digitsLead digitsRun Ended hexChar isDigit signedDigits
  valueOf_digits)

section Blanks
variable {blanks : List Char} {c : Char} {fuel : Nat}

def Blank (blanks : List Char) : Prop := ∀ c ∈ blanks, isSpace c = true

theorem skipBlank (blank : Blank blanks) (cs : List Char) : skip (blanks ++ cs) = skip cs :=
  List.dropWhile_append_of_pos blank

theorem skipVisible (visible : isSpace c = false) (cs : List Char) : skip (c :: cs) = c :: cs := by
  simp [skip, visible]

theorem skipTwice (cs : List Char) : skip (skip cs) = skip cs := List.dropWhile_idempotent _ _

theorem valueSkip (fuel : Nat) (cs : List Char) : value fuel (skip cs) = value fuel cs := by
  cases fuel with
  | zero => simp only [value]
  | succ fuel => simp only [value, skipTwice]

theorem itemsSkip (fuel : Nat) (cs : List Char) : items fuel (skip cs) = items fuel cs := by
  cases fuel with
  | zero => simp only [items]
  | succ fuel => simp only [items, valueSkip]

theorem membersSkip (fuel : Nat) (cs : List Char) : members fuel (skip cs) = members fuel cs := by
  cases fuel with
  | zero => simp only [members]
  | succ fuel => simp only [members, skipTwice]

theorem noBlank : Blank [] := nofun

theorem spaceBlank : Blank [' '] := by
  intro c member
  rw [List.eq_of_mem_singleton member]
  rfl

theorem newlineBlank (indent : Nat) : Blank (newline indent) := by
  intro c member
  rcases List.mem_cons.mp member with rfl | space
  · rfl
  · rw [List.eq_of_mem_replicate space]
    rfl

end Blanks

section Strings
variable {rest : List Char}

theorem escapeFilled (c : Char) : 0 < (escape c).length := by
  unfold escape
  split <;> try simp
  split <;> simp

theorem controlRead : ∀ n < 32, hexUnit? '0' '0' (hexChar (n / 16)) (hexChar (n % 16)) = some n ∧
    isHighSurrogate n = false ∧ isLowSurrogate n = false := by
  decide

theorem escapeRead (fuel : Nat) (c : Char) (cs : List Char) :
    stringBody (fuel + 1) (escape c ++ cs) =
      (stringBody fuel cs).bind fun read => some (read.1.map fun s => c :: s, read.2) := by
  unfold escape
  split
  · simp [stringBody, escaped?]
  · simp [stringBody, escaped?]
  · simp [stringBody, escaped?]
  · simp [stringBody, escaped?]
  · simp [stringBody, escaped?]
  · simp [stringBody, escaped?]
  · simp [stringBody, escaped?]
  · rename_i quote backslash _ _ _ _ _
    split
    · rename_i control
      obtain ⟨unit, high, low⟩ := controlRead c.toNat control
      simp [stringBody, unit, high, low]
    · rename_i plain
      simp only [List.cons_append, List.nil_append, stringBody, if_neg quote, if_neg backslash, if_neg plain]
      rfl

theorem stringBodyRead (s : List Char) {fuel : Nat} (enough : s.length < fuel) :
    stringBody fuel (s.flatMap escape ++ '"' :: rest) = some (some s, rest) := by
  induction s generalizing fuel with
  | nil =>
    obtain ⟨fuel, rfl⟩ := Nat.exists_eq_succ_of_ne_zero (Nat.ne_of_gt enough)
    simp [stringBody]
  | cons c s ih =>
    obtain ⟨fuel, rfl⟩ := Nat.exists_eq_succ_of_ne_zero (Nat.ne_zero_of_lt enough)
    have below : s.length < fuel := by simpa using enough
    rw [List.flatMap_cons, List.append_assoc, escapeRead, ih below]
    rfl

theorem escapesLength (s : List Char) : s.length ≤ (s.flatMap escape).length := by
  induction s with
  | nil => simp
  | cons c s ih =>
    have filled := escapeFilled c
    simp only [List.flatMap_cons, List.length_append, List.length_cons]
    omega

theorem stringRead (rest s : List Char) :
    string? (s.flatMap escape ++ '"' :: rest) = some (some s, rest) := by
  have length := escapesLength s
  refine stringBodyRead s ?_
  simp only [List.length_append]
  omega

end Strings

section Numbers
variable {rest : List Char}

/-- The character carries no number on. -/
def Stops (c : Char) : Prop := isDigit c = false ∧ c ≠ '.' ∧ c ≠ 'e' ∧ c ≠ 'E'
instance (c : Char) : Decidable (Stops c) := by unfold Stops; infer_instance

/-- A number before the text ends there. -/
def Ends (rest : List Char) : Prop := ∀ c ∈ rest.head?, Stops c

def Within64 (n : Int) : Prop := -9223372036854775808 ≤ n ∧ n < 18446744073709551616

theorem endsCons {c : Char} (stops : Stops c) (cs : List Char) : Ends (c :: cs) := by
  intro d head
  obtain rfl := Option.some.inj head
  exact stops

theorem blankEnds {blanks : List Char} {c : Char} (blank : Blank blanks) (stops : Stops c)
    (cs : List Char) : Ends (blanks ++ c :: cs) := by
  cases blanks with
  | nil => exact endsCons stops cs
  | cons b blanks =>
    refine endsCons ?_ _
    have space := blank b List.mem_cons_self
    simp only [isSpace, Bool.or_eq_true, beq_iff_eq] at space
    rcases space with ((rfl | rfl) | rfl) | rfl <;> decide

theorem wholeRead (n : Nat) (ends : Ends rest) : whole? (digits n ++ rest) = some (digits n, rest) := by
  have run := digitsRun (digitsAll n) fun c head => (ends c head).1
  have drop : (digits n ++ rest).drop (digits n).length = rest := List.drop_left
  obtain ⟨c, cs, filled, _⟩ := digitsFilled n
  obtain rfl | positive := Nat.eq_zero_or_pos n
  · rw [whole?, run]
    rfl
  · have lead := digitsLead positive
    rw [whole?, run]
    rw [filled] at lead ⊢
    split
    · simp_all
    · simp_all
    · simp_all
    · rw [← filled, drop]

theorem noFraction (ends : Ends rest) : fraction? rest = some ([], rest) := by
  unfold fraction?
  split
  · exact absurd rfl (ends '.' rfl).2.1
  · rfl

theorem noExponent (ends : Ends rest) : exponent? rest = some (none, rest) := by
  cases rest with
  | nil => rfl
  | cons c cs =>
    obtain ⟨_, _, small, capital⟩ := ends c rfl
    simp [exponent?, small, capital]

instance (n : Int) : Decidable (Within64 n) := by unfold Within64; infer_instance

/-- What the digits of an integer are read as: a number only if it has 64 bits. -/
def numeral (n : Int) : Json :=
  if Within64 n then number n
  else
    let (leading, places) := Magnitude.leading (digits n.natAbs) []
    if Magnitude.tooLarge leading places then meaningless else decimal (String.ofList (signedDigits n))

theorem numeralWithin {n : Int} (within : Within64 n) : numeral n = number n := if_pos within

theorem numeralDecided {cond : Prop} [Decidable cond] {n m : Int} {written : List Char}
    (exact : cond ↔ Within64 n) (same : m = n) (text : written = signedDigits n) :
    (if cond then some (number m, rest)
      else if Magnitude.tooLarge (Magnitude.leading (digits n.natAbs) []).1
          (Magnitude.leading (digits n.natAbs) []).2 then some (meaningless, rest)
        else some (decimal (String.ofList written), rest)) = some (numeral n, rest) := by
  subst same text
  by_cases within : Within64 m
  · rw [if_pos (exact.mpr within), numeralWithin within]
  · rw [if_neg (mt exact.mp within), numeral, if_neg within]
    dsimp only
    split <;> rfl

theorem numberRead (n : Int) (ends : Ends rest) :
    number? (signedDigits n ++ rest) = some (numeral n, rest) := by
  have whole := wholeRead n.natAbs ends
  have written : (signedDigits n ++ rest).take ((signedDigits n ++ rest).length - rest.length) =
      signedDigits n := by simp
  by_cases negative : n < 0
  · have signed : signedDigits n = '-' :: digits n.natAbs := if_pos negative
    rw [signed] at written ⊢
    simp only [List.cons_append] at written
    simp only [number?, List.cons_append, whole, noFraction ends, noExponent ends, Option.bind_eq_bind,
      Option.bind_some, valueOf_digits, true_and, Bool.not_true, Bool.false_eq_true, false_and, if_false,
      written, Option.getD_none, Int.add_zero]
    exact numeralDecided (by unfold Within64; omega) (by omega) signed.symm
  · have signed : signedDigits n = digits n.natAbs := if_neg negative
    have unsigned : ∀ r, digits n.natAbs ++ rest = '-' :: r → False := by
      intro r same
      obtain ⟨c, cs, filled, digit⟩ := digitsFilled n.natAbs
      rw [filled] at same
      exact digitOther digit rfl (List.head_eq_of_cons_eq same)
    rw [signed] at written ⊢
    simp only [number?, whole, noFraction ends, noExponent ends, Option.bind_eq_bind, Option.bind_some,
      valueOf_digits, true_and, Bool.not_false, Bool.false_eq_true, false_and, if_false, written,
      Option.getD_none, Int.add_zero]
    exact numeralDecided (by unfold Within64; omega) (by omega) signed.symm

theorem signedStart (n : Int) :
    ∃ c cs, signedDigits n = c :: cs ∧ (c = '-' ∨ isDigit c = true) := by
  unfold signedDigits
  split
  · exact ⟨_, _, rfl, .inl rfl⟩
  · obtain ⟨c, cs, filled, digit⟩ := digitsFilled n.natAbs
    exact ⟨c, cs, filled, .inr digit⟩

theorem valueNumber {c : Char} (start : c = '-' ∨ isDigit c = true) (fuel : Nat) (cs : List Char) :
    value (fuel + 1) (c :: cs) = number? (c :: cs) := by
  have visible : isSpace c = false := by
    rcases start with rfl | digit
    · rfl
    · simp [isSpace, digitOther digit (show isDigit ' ' = false from rfl),
        digitOther digit (show isDigit '\n' = false from rfl),
        digitOther digit (show isDigit '\t' = false from rfl),
        digitOther digit (show isDigit '\r' = false from rfl)]
  have other {d : Char} (minus : d ≠ '-') (notDigit : isDigit d = false) : c ≠ d := by
    rcases start with rfl | digit
    · exact minus.symm
    · exact digitOther digit notDigit
  have brace := other (d := '{') (by decide) rfl
  have bracket := other (d := '[') (by decide) rfl
  have quote := other (d := '"') (by decide) rfl
  have null := other (d := 'n') (by decide) rfl
  have true := other (d := 't') (by decide) rfl
  have false := other (d := 'f') (by decide) rfl
  rw [value, skipVisible visible]
  split <;> simp_all

end Numbers

section Parts
variable {text more blanks : List Char} {j : Json} {js : List Json} {ms : List (String × Json)}

/-- A text that is read as a value before anything that does not carry a number on. -/
def Reads (text : List Char) (j : Json) : Prop :=
  ∀ fuel rest, text.length ≤ fuel → Ends rest → value fuel (text ++ rest) = some (j, rest)

/-- A text that is read as the rest of an array, with its closing bracket. -/
def ReadsItems (text : List Char) (js : List Json) : Prop :=
  ∀ fuel rest, text.length ≤ fuel → items fuel (text ++ rest) = some (js, rest)

/-- A text that is read as the rest of an object, with its closing brace. -/
def ReadsMembers (text : List Char) (ms : List (String × Json)) : Prop :=
  ∀ fuel rest, text.length ≤ fuel →
    members fuel (text ++ rest) = some (ms.map fun m => (some m.1.toList, m.2), rest)

theorem readsLine (blank : Blank blanks) (ends : Ends blanks) (reads : Reads text j) :
    read? (text ++ blanks) = some j := by
  have whole := reads (2 * (text ++ blanks).length + 2) blanks (by simp; omega) ends
  have rest : skip blanks = [] := by
    have skipped := skipBlank blank []
    rwa [List.append_nil] at skipped
  rw [read?, whole]
  simp [rest]

theorem readsText (reads : Reads text j) : read? text = some j := by
  have read := readsLine noBlank (by simp [Ends]) reads
  rwa [List.append_nil] at read

theorem readsFilled (filled : 0 < text.length) (step : ∀ fuel rest, text.length ≤ fuel + 1 → Ends rest →
    value (fuel + 1) (text ++ rest) = some (j, rest)) : Reads text j := by
  intro fuel rest enough ends
  cases fuel with
  | zero => omega
  | succ fuel => exact step fuel rest enough ends

theorem readsBlank (blank : Blank blanks) (reads : Reads text j) : Reads (blanks ++ text) j := by
  intro fuel rest enough ends
  rw [List.length_append] at enough
  rw [← valueSkip, List.append_assoc, skipBlank blank, valueSkip]
  exact reads fuel rest (by omega) ends

theorem readsMembersBlank (blank : Blank blanks) (reads : ReadsMembers text ms) :
    ReadsMembers (blanks ++ text) ms := by
  intro fuel rest enough
  rw [List.length_append] at enough
  rw [← membersSkip, List.append_assoc, skipBlank blank, membersSkip]
  exact reads fuel rest (by omega)

theorem readsInteger (n : Int) : Reads (signedDigits n) (numeral n) := by
  obtain ⟨c, cs, written, start⟩ := signedStart n
  refine readsFilled (by simp [written]) fun fuel rest _ ends => ?_
  have read := numberRead n ends
  rw [written, List.cons_append] at read ⊢
  rw [valueNumber start, read]

theorem readsWord (b : Bool) : Reads (scalar (.bool b)) (.bool b) := by
  cases b <;> exact readsFilled (by decide) fun _ _ _ _ => rfl

theorem readsNull : Reads (scalar .null) .null := readsFilled (by decide) fun _ _ _ _ => rfl

theorem readsString (s : String) : Reads (quoted s) (.string s) := by
  refine readsFilled (by simp [quoted]) fun fuel rest _ _ => ?_
  have read := stringRead rest s.toList
  simp only [quoted, List.append_assoc, List.cons_append, List.nil_append, value,
    skipVisible (show isSpace '"' = false from rfl), read, String.ofList_toList]

theorem itemsClosed (fuel : Nat) (cs : List Char) : items fuel (']' :: cs) = none := by
  have closed (fuel : Nat) : value fuel (']' :: cs) = none := by cases fuel <;> rfl
  cases fuel with
  | zero => rfl
  | succ fuel => simp only [items, closed, Option.bind_eq_bind, Option.bind_none]

theorem membersClosed (fuel : Nat) (cs : List Char) : members fuel ('}' :: cs) = none := by
  cases fuel <;> rfl

theorem readsEmptyArray : Reads ['[', ']'] (.array []) := readsFilled (by decide) fun _ _ _ _ => rfl

theorem readsArray (reads : ReadsItems text js) : Reads ('[' :: text) (.array js) := by
  refine readsFilled (by simp) fun fuel rest enough _ => ?_
  have inner := reads fuel rest (by simpa using enough)
  rw [← itemsSkip] at inner
  simp only [List.cons_append, value, skipVisible (show isSpace '[' = false from rfl)]
  -- a bracket that closes the array at once would leave no items to be read
  split
  · rename_i closed
    rw [closed, itemsClosed] at inner
    cases inner
  · rw [inner]
    rfl

theorem readsItem (blank : Blank blanks) (reads : Reads text j) :
    ReadsItems (text ++ (blanks ++ [']'])) [j] := by
  intro fuel rest enough
  simp only [List.length_append, List.length_singleton] at enough
  obtain ⟨fuel, rfl⟩ := Nat.exists_eq_succ_of_ne_zero (n := fuel) (by omega)
  have ends : Ends (blanks ++ ']' :: rest) := blankEnds blank (by decide) rest
  have read := reads fuel (blanks ++ ']' :: rest) (by omega) ends
  simp only [List.append_assoc, List.cons_append, List.nil_append, items, read, Option.bind_eq_bind,
    Option.bind_some, skipBlank blank, skipVisible (show isSpace ']' = false from rfl)]

theorem readsItems (reads : Reads text j) (others : ReadsItems more js) :
    ReadsItems (text ++ ',' :: more) (j :: js) := by
  intro fuel rest enough
  simp only [List.length_append, List.length_cons] at enough
  obtain ⟨fuel, rfl⟩ := Nat.exists_eq_succ_of_ne_zero (n := fuel) (by omega)
  have ends : Ends (',' :: (more ++ rest)) := endsCons (by decide) _
  have read := reads fuel (',' :: (more ++ rest)) (by omega) ends
  have readOthers := others fuel rest (by omega)
  simp only [List.append_assoc, List.cons_append, items, read, Option.bind_eq_bind, Option.bind_some,
    skipVisible (show isSpace ',' = false from rfl), readOthers]

theorem readsEmptyObject : Reads ['{', '}'] (.object []) := readsFilled (by decide) fun _ _ _ _ => rfl

theorem ofMembersNamed (ms : List (String × Json)) :
    ofMembers (ms.map fun m => (some m.1.toList, m.2)) = .object ms := by
  simp [ofMembers, Function.comp_def]

theorem readsObject (reads : ReadsMembers text ms) : Reads ('{' :: text) (.object ms) := by
  refine readsFilled (by simp) fun fuel rest enough _ => ?_
  have inner := reads fuel rest (by simpa using enough)
  rw [← membersSkip] at inner
  simp only [List.cons_append, value, skipVisible (show isSpace '{' = false from rfl)]
  split
  · rename_i closed
    rw [closed, membersClosed] at inner
    cases inner
  · rw [inner, Option.map_some, ofMembersNamed]

section Named
variable {fuel : Nat} {cs rest next : List Char} {others : List (Option (List Char) × Json)}

theorem memberLast (name : String) (read : value fuel cs = some (j, rest)) (last : skip rest = '}' :: next) :
    members (fuel + 1) (quoted name ++ ':' :: cs) = some ([(some name.toList, j)], next) := by
  have named := stringRead (':' :: cs) name.toList
  simp only [quoted, List.append_assoc, List.cons_append, List.nil_append, members,
    skipVisible (show isSpace '"' = false from rfl), skipVisible (show isSpace ':' = false from rfl),
    named, read, last, Option.bind_eq_bind, Option.bind_some]

theorem memberNext (name : String) (read : value fuel cs = some (j, rest)) (more : skip rest = ',' :: next)
    (readOthers : members fuel next = some (others, text)) :
    members (fuel + 1) (quoted name ++ ':' :: cs) = some ((some name.toList, j) :: others, text) := by
  have named := stringRead (':' :: cs) name.toList
  simp only [quoted, List.append_assoc, List.cons_append, List.nil_append, members,
    skipVisible (show isSpace '"' = false from rfl), skipVisible (show isSpace ':' = false from rfl),
    named, read, more, readOthers, Option.bind_eq_bind, Option.bind_some]

end Named

theorem readsMember (name : String) (blank : Blank blanks) (reads : Reads text j) :
    ReadsMembers (quoted name ++ ':' :: text ++ (blanks ++ ['}'])) [(name, j)] := by
  intro fuel rest enough
  simp only [List.length_append, List.length_cons, List.length_nil] at enough
  obtain ⟨fuel, rfl⟩ := Nat.exists_eq_succ_of_ne_zero (n := fuel) (by omega)
  have ends : Ends (blanks ++ '}' :: rest) := blankEnds blank (by decide) rest
  have read := reads fuel (blanks ++ '}' :: rest) (by omega) ends
  have last : skip (blanks ++ '}' :: rest) = '}' :: rest := by
    rw [skipBlank blank, skipVisible (show isSpace '}' = false from rfl)]
  simp only [List.append_assoc, List.cons_append, List.nil_append, List.map_cons, List.map_nil]
  exact memberLast name read last

theorem readsMembers (name : String) (reads : Reads text j) (others : ReadsMembers more ms) :
    ReadsMembers (quoted name ++ ':' :: text ++ ',' :: more) ((name, j) :: ms) := by
  intro fuel rest enough
  simp only [List.length_append, List.length_cons] at enough
  obtain ⟨fuel, rfl⟩ := Nat.exists_eq_succ_of_ne_zero (n := fuel) (by omega)
  have ends : Ends (',' :: (more ++ rest)) := endsCons (by decide) _
  have read := reads fuel (',' :: (more ++ rest)) (by omega) ends
  have readOthers := others fuel rest (by omega)
  have next : skip (',' :: (more ++ rest)) = ',' :: (more ++ rest) :=
    skipVisible (show isSpace ',' = false from rfl) _
  simp only [List.append_assoc, List.cons_append, List.map_cons]
  exact memberNext name read next readOthers

end Parts

section Layouts
variable {f : Json → Json} {indent : Nat}

theorem compactItemsRead {js : List Json} (filled : js ≠ []) (each : ∀ j ∈ js, Reads (compact j) (f j)) :
    ReadsItems (compactItems js) (js.map f) := by
  induction js with
  | nil => exact absurd rfl filled
  | cons j js ih =>
    obtain ⟨first, others⟩ := List.forall_mem_cons.mp each
    cases js with
    | nil => exact readsItem noBlank first
    | cons k js => exact readsItems first (ih nofun others)

theorem compactMembersRead {ms : List (String × Json)} (filled : ms ≠ [])
    (each : ∀ m ∈ ms, Reads (compact m.2) (f m.2)) :
    ReadsMembers (compactMembers ms) (ms.map fun m => (m.1, f m.2)) := by
  induction ms with
  | nil => exact absurd rfl filled
  | cons m ms ih =>
    obtain ⟨first, others⟩ := List.forall_mem_cons.mp each
    cases ms with
    | nil => exact readsMember m.1 noBlank first
    | cons n ms => exact readsMembers m.1 first (ih nofun others)

theorem compactArrayRead {js : List Json} (each : ∀ j ∈ js, Reads (compact j) (f j)) :
    Reads (compact (.array js)) (.array (js.map f)) := by
  cases js with
  | nil => exact readsEmptyArray
  | cons j js => exact readsArray (compactItemsRead (by simp) each)

theorem compactObjectRead {ms : List (String × Json)} (each : ∀ m ∈ ms, Reads (compact m.2) (f m.2)) :
    Reads (compact (.object ms)) (.object (ms.map fun m => (m.1, f m.2))) := by
  cases ms with
  | nil => exact readsEmptyObject
  | cons m ms => exact readsObject (compactMembersRead (by simp) each)

theorem prettyItemsRead {js : List Json} (filled : js ≠ [])
    (each : ∀ j ∈ js, Reads (pretty (indent + 1) j) (f j)) :
    ReadsItems (prettyItems (indent + 1) js ++ (newline indent ++ [']'])) (js.map f) := by
  induction js with
  | nil => exact absurd rfl filled
  | cons j js ih =>
    obtain ⟨own, others⟩ := List.forall_mem_cons.mp each
    have first := readsBlank (newlineBlank (indent + 1)) own
    cases js with
    | nil => exact readsItem (newlineBlank indent) first
    | cons k js =>
      have read := readsItems first (ih nofun others)
      simpa only [prettyItems, List.append_assoc, List.cons_append, List.map_cons] using read

theorem prettyMembersRead {ms : List (String × Json)} (filled : ms ≠ [])
    (each : ∀ m ∈ ms, Reads (pretty (indent + 1) m.2) (f m.2)) :
    ReadsMembers (prettyMembers (indent + 1) ms ++ (newline indent ++ ['}']))
      (ms.map fun m => (m.1, f m.2)) := by
  induction ms with
  | nil => exact absurd rfl filled
  | cons m ms ih =>
    obtain ⟨own, others⟩ := List.forall_mem_cons.mp each
    have first := readsBlank spaceBlank own
    cases ms with
    | nil =>
      have read := readsMembersBlank (newlineBlank (indent + 1)) (readsMember m.1 (newlineBlank indent) first)
      simpa only [prettyMembers, List.append_assoc, List.cons_append, List.nil_append, List.map_cons,
        List.map_nil] using read
    | cons n ms =>
      have read := readsMembersBlank (newlineBlank (indent + 1)) (readsMembers m.1 first (ih nofun others))
      simpa only [prettyMembers, List.append_assoc, List.cons_append, List.nil_append, List.map_cons] using read

theorem prettyArrayRead {js : List Json} (each : ∀ j ∈ js, Reads (pretty (indent + 1) j) (f j)) :
    Reads (pretty indent (.array js)) (.array (js.map f)) := by
  cases js with
  | nil => exact readsEmptyArray
  | cons j js =>
    have read := readsArray (prettyItemsRead (by simp) each)
    simpa only [pretty, List.append_assoc, List.cons_append] using read

theorem prettyObjectRead {ms : List (String × Json)}
    (each : ∀ m ∈ ms, Reads (pretty (indent + 1) m.2) (f m.2)) :
    Reads (pretty indent (.object ms)) (.object (ms.map fun m => (m.1, f m.2))) := by
  cases ms with
  | nil => exact readsEmptyObject
  | cons m ms =>
    have read := readsObject (prettyMembersRead (by simp) each)
    simpa only [pretty, List.append_assoc, List.cons_append] using read

/-- A value has two texts, one line and one with a member a line. -/
theorem bothTexts {j k : Json} (line : Reads (compact j) k) (lines : Reads (pretty 0 j) k) :
    ∀ text ∈ [toText j, toPrettyText j], ofText? text = some k := by
  simp [ofText?, toText, toPrettyText, readsText line, readsText lines]

end Layouts

mutual
/-- What the text of a value is read as. Only integers of 64 bits are numbers to the reader. -/
def reread : Json → Json
  | number n => numeral n
  | array items => array (rereadItems items)
  | object members => object (rereadMembers members)
  | j => j
def rereadItems : List Json → List Json
  | [] => []
  | j :: js => reread j :: rereadItems js
def rereadMembers : List (String × Json) → List (String × Json)
  | [] => []
  | (name, j) :: ms => (name, reread j) :: rereadMembers ms
end

theorem rereadArray (items : List Json) : reread (array items) = array (items.map reread) := by
  have each : rereadItems items = items.map reread := by
    induction items with
    | nil => rfl
    | cons j js ih => rw [rereadItems, ih, List.map_cons]
  rw [reread, each]

theorem rereadObject (members : List (String × Json)) :
    reread (object members) = object (members.map fun m => (m.1, reread m.2)) := by
  have each : rereadMembers members = members.map fun m => (m.1, reread m.2) := by
    induction members with
    | nil => rfl
    | cons m ms ih => rw [rereadMembers, ih, List.map_cons]
  rw [reread, each]

/-- Values all of whose numbers are integers. -/
inductive Whole : Json → Prop where
  | null : Whole null
  | bool (b : Bool) : Whole (bool b)
  | number (n : Int) : Whole (number n)
  | string (s : String) : Whole (string s)
  | array {items : List Json} (each : ∀ j ∈ items, Whole j) : Whole (array items)
  | object {members : List (String × Json)} (each : ∀ m ∈ members, Whole m.2) : Whole (object members)

theorem compactReread {j : Json} (whole : Whole j) : Reads (compact j) (reread j) := by
  induction whole with
  | null => exact readsNull
  | bool b => exact readsWord b
  | number n => exact readsInteger n
  | string s => exact readsString s
  | array each ih => exact rereadArray _ ▸ compactArrayRead ih
  | object each ih => exact rereadObject _ ▸ compactObjectRead ih

theorem prettyReread {j : Json} (whole : Whole j) (indent : Nat) : Reads (pretty indent j) (reread j) := by
  induction whole generalizing indent with
  | null => exact readsNull
  | bool b => exact readsWord b
  | number n => exact readsInteger n
  | string s => exact readsString s
  | array each ih => exact rereadArray _ ▸ prettyArrayRead fun j member => ih j member (indent + 1)
  | object each ih => exact rereadObject _ ▸ prettyObjectRead fun m member => ih m member (indent + 1)

/-- Values that go out as JSON text without loss: their numbers have 64 bits. -/
inductive Plain : Json → Prop where
  | null : Plain null
  | bool (b : Bool) : Plain (bool b)
  | number {n : Int} (within : Within64 n) : Plain (number n)
  | string (s : String) : Plain (string s)
  | array {items : List Json} (each : ∀ j ∈ items, Plain j) : Plain (array items)
  | object {members : List (String × Json)} (each : ∀ m ∈ members, Plain m.2) : Plain (object members)

theorem plainWhole {j : Json} (plain : Plain j) : Whole j := by
  induction plain with
  | null => exact .null
  | bool b => exact .bool b
  | number within => exact .number _
  | string s => exact .string s
  | array each ih => exact .array ih
  | object each ih => exact .object ih

theorem plainReread {j : Json} (plain : Plain j) : reread j = j := by
  induction plain with
  | null => rfl
  | bool b => rfl
  | number within => exact numeralWithin within
  | string s => rfl
  | array each ih =>
    rw [rereadArray, List.map_congr_left ih]
    simp
  | object each ih =>
    have same : ∀ m ∈ _, (m.1, reread m.2) = m := fun m member => Prod.ext rfl (ih m member)
    rw [rereadObject, List.map_congr_left same]
    simp

theorem compactReads {j : Json} (plain : Plain j) : Reads (compact j) j := by
  have reads := compactReread (plainWhole plain)
  rwa [plainReread plain] at reads

theorem prettyReads {j : Json} (plain : Plain j) (indent : Nat) : Reads (pretty indent j) j := by
  have reads := prettyReread (plainWhole plain) indent
  rwa [plainReread plain] at reads

theorem readsBack {j : Json} (plain : Plain j) : ∀ text ∈ [toText j, toPrettyText j], ofText? text = some j :=
  bothTexts (compactReads plain) (prettyReads plain 0)

end Json
end BackupRotation
