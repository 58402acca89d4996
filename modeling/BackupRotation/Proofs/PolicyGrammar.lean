import BackupRotation.Proofs.PolicyTexts
import BackupRotation.Proofs.Trimming
import Mathlib.Tactic
/-! The grammar of the policy texts: kinds and tiers are named in letters of either case, and blanks may
stand around each part. What the grammar gives a meaning is what is read. -/
namespace BackupRotation.Policy
open Text (Bare Numeral Separates Spelt Visible bareChecked bareDigit bareLower digits integer64Iff normal
  normalIff numeralFree numeralVisible separatesCode speltFree splitAll splitFirst? splitNormal trimNormal
  visibleChecked)

def AllKind (kind : List Char) : Prop := Spelt "none".toList kind ∨ Spelt "keep-all".toList kind
def NewestKind (kind : List Char) : Prop := Spelt "simple".toList kind
def RotationKind (kind : List Char) : Prop := Spelt "smart".toList kind ∨ Spelt "gvs".toList kind

/-- A numeral with a number in the range of 64 bits. -/
def Count (part : List Char) (n : Int) : Prop :=
  Readable n ∧ ∃ numeral, Numeral numeral n ∧ Spelt numeral part

/-- The name of a tier, and its count behind an equals sign. -/
def Field (part : List Char) (field : Tier × Int) : Prop :=
  ∃ name count, part = name ++ '=' :: count ∧ Spelt field.1.name.toList name ∧ Count count field.2

/-- The count is the number brought into 32 bits. -/
def Clamped (n : Int) (count : UInt32) : Prop := (count.toNat : Int) = max 0 (min n 4294967295)

/-- The last count that is stated for the tier, and 0 where none is. -/
def stated (fields : List (Tier × Int)) (t : Tier) : Int := (fields.reverse.lookup t).getD 0

/-- A rotation with the counts of the tiers, each brought into 32 bits. -/
def Rotates (p : Policy) (counts : Tier → Int) : Prop :=
  ∃ d w m y, p = smart d w m y ∧ ∀ t, Clamped (counts t) (p.countOf t)

/-- Four counts at most, for the tiers in their order; those left out at the end are 0. -/
def Positional (parts : List (List Char)) (p : Policy) : Prop := parts.length ≤ 4 ∧
  ∃ ns, List.Forall₂ Count parts ns ∧ Rotates p fun t => ns.getD (Tier.all.idxOf t) 0

/-- Tiers in any order and number, each with its count; of several counts the last one holds. -/
def Named (parts : List (List Char)) (p : Policy) : Prop :=
  ∃ fields, List.Forall₂ Field parts fields ∧ Rotates p (stated fields)

/-- What the text of a policy means. -/
inductive Denotes : List Char → Policy → Prop where
  | all {kind} (known : AllKind kind) : Denotes kind none
  | allOf {kind value} (known : AllKind kind) : Denotes (kind ++ ':' :: value) none
  | newest {kind value n c} (known : NewestKind kind) (count : Count value n) (clamped : Clamped n c) :
      Denotes (kind ++ ':' :: value) (simple c)
  | rotation {kind parts p} (known : RotationKind kind) (some : parts ≠ [])
      (tiers : Positional parts p ∨ Named parts p) : Denotes (kind ++ ':' :: [','].intercalate parts) p

section Counts
variable {part : List Char} {parts : List (List Char)} {n : Int} {ns : List Int} {p : Policy}

theorem clampClamped (n : Int) : Clamped n (clamp n) := by
  unfold Clamped clamp
  split
  · rw [UInt32.toNat_zero]
    omega
  · split
    · rw [UInt32.toNat_ofNat', Nat.mod_eq_of_lt (by omega)]
      omega
    · change (4294967295 : Int) = _
      omega

theorem clampedIff {count : UInt32} : Clamped n count ↔ count = clamp n := by
  constructor
  · intro clamped
    exact UInt32.toNat_inj.mp (Int.natCast_inj.mp (Eq.trans clamped (clampClamped n).symm))
  · rintro rfl
    exact clampClamped n

theorem rotatesIff {counts : Tier → Int} : Rotates p counts ↔ p = ofTiers counts := by
  constructor
  · rintro ⟨d, w, m, y, rfl, each⟩
    have daily := clampedIff.mp (each .daily)
    have weekly := clampedIff.mp (each .weekly)
    have monthly := clampedIff.mp (each .monthly)
    have yearly := clampedIff.mp (each .yearly)
    simp only [countOf] at daily weekly monthly yearly
    rw [daily, weekly, monthly, yearly]
    rfl
  · rintro rfl
    exact ⟨_, _, _, _, rfl, fun t => clampedIff.mpr (by cases t <;> rfl)⟩

theorem countIff : Count part n ↔ Readable n ∧ Numeral (normal part) n := by
  refine and_congr_right fun _ => ⟨?_, fun numeral => ?_⟩
  · rintro ⟨numeral, number, spelt⟩
    rwa [(normalIff (numeralVisible number)).mpr spelt]
  · exact ⟨normal part, numeral, (normalIff (numeralVisible numeral)).mp rfl⟩

theorem bindRead {α β : Type} {x : Except PolicyError α} {f : α → Except PolicyError β} {b : β} :
    x >>= f = .ok b ↔ ∃ a, x = .ok a ∧ f a = .ok b := by
  cases x with
  | error e => simp [bind, Except.bind]
  | ok a => simp [bind, Except.bind]

theorem readCountIff : readCount (normal part) = .ok n ↔ Count part n := by
  rw [countIff, and_comm]
  refine Iff.trans ?_ integer64Iff
  rw [readCount, trimNormal]
  cases Text.integer64? (normal part) with
  | none => simp
  | some m => simp

theorem readCountsIff : readCounts (parts.map normal) = .ok ns ↔ List.Forall₂ Count parts ns := by
  induction parts generalizing ns with
  | nil => simp [readCounts, eq_comm]
  | cons part parts ih =>
    simp only [List.map_cons, readCounts, bindRead, readCountIff, ih, List.forall₂_cons_left_iff,
      Except.ok.injEq]
    constructor
    · rintro ⟨n, first, ns, rest, rfl⟩
      exact ⟨n, ns, first, rest, rfl⟩
    · rintro ⟨n, ns, first, rest, rfl⟩
      exact ⟨n, first, ns, rest, rfl⟩

theorem readPositionalIff : readPositional (parts.map normal) = .ok p ↔ Positional parts p := by
  rw [readPositional, List.length_map, Positional]
  by_cases many : 4 < parts.length
  · rw [if_pos many]
    exact iff_of_false (by simp) fun few => absurd few.1 (Nat.not_le.mpr many)
  · simp only [if_neg many, bindRead, readCountsIff, Except.ok.injEq, rotatesIff, Nat.not_lt.mp many,
      true_and]
    exact exists_congr fun ns => and_congr_right fun _ => eq_comm

end Counts

section Fields
variable {part a b : List Char} {parts : List (List Char)} {t : Tier} {n : Int} {counts counts' : Tier → Int}

theorem equalsSeparates : Separates '=' := separatesCode rfl (by decide)

theorem nameVisible (t : Tier) : Visible t.name.toList := visibleChecked (by cases t <;> rfl)

theorem ofNameIff : Tier.ofName? (normal part) = some t ↔ Spelt t.name.toList part := by
  have small (t : Tier) : Text.lower t.name.toList = t.name.toList := by cases t <;> decide
  have once : Text.lower (normal part) = normal part := Text.lowerTwice _
  rw [← normalIff (nameVisible t)]
  constructor
  · intro found
    have same := List.find?_some found
    rw [Text.sameIgnoringCase, small, once, beq_iff_eq] at same
    exact same.symm
  · intro same
    rw [same]
    exact Tier.ofName?_name t

theorem fieldIff (free : '=' ∉ a) : Field (a ++ '=' :: b) (t, n) ↔ Spelt t.name.toList a ∧ Count b n := by
  constructor
  · rintro ⟨name, count, same, spelt, counted⟩
    have clear : '=' ∉ name := speltFree equalsSeparates (nameVisible t) (by cases t <;> decide) spelt
    have cuts := congrArg (splitFirst? '=') same
    rw [Text.splitFirst?_append b free, Text.splitFirst?_append count clear] at cuts
    cases cuts
    exact ⟨spelt, counted⟩
  · rintro ⟨spelt, counted⟩
    exact ⟨a, b, rfl, spelt, counted⟩

theorem fieldRead : readNamed counts (normal part :: parts) = .ok counts' ↔
    ∃ t n, Field part (t, n) ∧ readNamed (fun u => if u = t then n else counts u) parts = .ok counts' := by
  by_cases equals : '=' ∈ part
  · obtain ⟨a, b, rfl, free⟩ := List.eq_append_cons_of_mem equals
    obtain ⟨name, count, cut, named, counted⟩ := splitNormal equalsSeparates free b
    have same : readCount count = readCount (normal b) := by
      rw [readCount, counted, readCount, trimNormal]
    simp only [readNamed, cut, Option.getD_some, named, same, fieldIff free, ← ofNameIff]
    cases Tier.ofName? (normal a) with
    | none => simp
    | some t =>
      simp only [bindRead, readCountIff, Option.some.injEq]
      constructor
      · rintro ⟨n, counted, rest⟩
        exact ⟨t, n, ⟨rfl, counted⟩, rest⟩
      · rintro ⟨_, n, ⟨rfl, counted⟩, rest⟩
        exact ⟨n, counted, rest⟩
  · have clear : '=' ∉ normal part := mt (Text.memNormal equalsSeparates).mp equals
    simp only [readNamed, Text.splitFirst?_none clear, Option.getD_none]
    constructor
    · intro read
      split at read
      · cases read
      · cases read
    · rintro ⟨_, _, ⟨_, _, rfl, _⟩, _⟩
      simp at equals

theorem statedFirst (fields : List (Tier × Int)) (u : Tier) :
    (((t, n) :: fields).reverse.lookup u).getD (counts u) =
      (fields.reverse.lookup u).getD (if u = t then n else counts u) := by
  rw [List.reverse_cons, List.lookup_append, Option.getD_or]
  by_cases own : u = t
  · simp [own]
  · simp [own, List.lookup_cons, beq_false_of_ne own]

theorem readNamedIff : readNamed counts (parts.map normal) = .ok counts' ↔ ∃ fields,
    List.Forall₂ Field parts fields ∧ counts' = fun t => (fields.reverse.lookup t).getD (counts t) := by
  -- the counts change with each field, and those of the later fields stand before them
  induction parts generalizing counts with
  | nil => simp [readNamed, eq_comm]
  | cons part parts ih =>
    simp only [List.map_cons, fieldRead, ih, List.forall₂_cons_left_iff]
    constructor
    · rintro ⟨t, n, first, fields, rest, rfl⟩
      exact ⟨(t, n) :: fields, ⟨(t, n), fields, first, rest, rfl⟩, funext fun u => (statedFirst fields u).symm⟩
    · rintro ⟨_, ⟨⟨t, n⟩, fields, first, rest, rfl⟩, rfl⟩
      exact ⟨t, n, first, fields, rest, funext (statedFirst fields)⟩

end Fields

section Kinds
variable {kind value part : List Char} {parts : List (List Char)} {p : Policy} {n : Int}

theorem commaSeparates : Separates ',' := separatesCode rfl (by decide)
theorem colonSeparates : Separates ':' := separatesCode rfl (by decide)

theorem countFree {sep : Char} (separates : Separates sep) (plus : sep ≠ '+') (minus : sep ≠ '-')
    (other : Text.isDigit sep = false) (count : Count part n) : sep ∉ part := by
  obtain ⟨_, numeral, number, spelt⟩ := count
  exact speltFree separates (numeralVisible number) (numeralFree number plus minus other) spelt

theorem fieldSplits {field : Tier × Int} (stated : Field part field) : '=' ∈ part ∧ ',' ∉ part := by
  obtain ⟨name, count, rfl, spelt, counted⟩ := stated
  have name : ',' ∉ name :=
    speltFree commaSeparates (nameVisible _) (by cases field.1 <;> decide) spelt
  have count : ',' ∉ count := countFree commaSeparates (by decide) (by decide) rfl counted
  exact ⟨by simp, by simp [name, count]⟩

theorem eachLeft {β : Type} {holds : List Char → β → Prop} {property : List Char → Prop}
    (gives : ∀ {part b}, holds part b → property part) {bs : List β} (each : List.Forall₂ holds parts bs) :
    ∀ part ∈ parts, property part := by
  induction each with
  | nil => nofun
  | cons first _ ih => exact List.forall_mem_cons.mpr ⟨gives first, ih⟩

theorem positionalSplits (positional : Positional parts p) : ∀ part ∈ parts, '=' ∉ part ∧ ',' ∉ part := by
  obtain ⟨_, ns, counts, _⟩ := positional
  exact eachLeft (fun count => ⟨countFree equalsSeparates (by decide) (by decide) rfl count,
    countFree commaSeparates (by decide) (by decide) rfl count⟩) counts

theorem namedSplits (named : Named parts p) : ∀ part ∈ parts, '=' ∈ part ∧ ',' ∉ part := by
  obtain ⟨fields, each, _⟩ := named
  exact eachLeft fieldSplits each

theorem readTiersIff : readTiers (normal value) = .ok p ↔
    Positional (splitAll ',' value) p ∨ Named (splitAll ',' value) p := by
  have parts : (splitAll ',' (normal value)).map Text.trim = (splitAll ',' value).map normal :=
    Text.splitAllNormal commaSeparates value
  have some := Text.splitAllNonempty ',' value
  rw [readTiers, parts]
  generalize splitAll ',' value = parts at some
  obtain ⟨part, member⟩ := List.exists_mem_of_ne_nil parts some
  have none : (parts.map normal).countP (fun part => '=' ∈ part) = 0 ↔ ∀ part ∈ parts, '=' ∉ part := by
    simp [List.countP_eq_zero, Text.memNormal equalsSeparates]
  have all : (parts.map normal).countP (fun part => '=' ∈ part) = (parts.map normal).length ↔
      ∀ part ∈ parts, '=' ∈ part := by
    simp only [List.countP_eq_length, List.forall_mem_map, decide_eq_true_eq,
      Text.memNormal equalsSeparates]
  simp only [none, all]
  split
  · rename_i plain
    have unnamed : ¬Named parts p := fun named => plain part member (namedSplits named part member).1
    rw [readPositionalIff, or_iff_left unnamed]
  · rename_i other
    have unplaced : ¬Positional parts p :=
      fun positional => other fun part member => (positionalSplits positional part member).1
    rw [or_iff_right unplaced]
    split
    · simp only [bindRead, readNamedIff, Except.ok.injEq]
      constructor
      · rintro ⟨_, ⟨fields, each, rfl⟩, rfl⟩
        exact ⟨fields, each, rotatesIff.mpr rfl⟩
      · rintro ⟨fields, each, rotates⟩
        exact ⟨_, ⟨fields, each, rfl⟩, (rotatesIff.mp rotates).symm⟩
    · rename_i mixed
      have unnamed : ¬Named parts p := fun named => mixed fun part member => (namedSplits named part member).1
      exact iff_of_false (by simp) unnamed

theorem allIff : normal kind = "none".toList ∨ normal kind = "keep-all".toList ↔ AllKind kind :=
  or_congr (normalIff (visibleChecked rfl)) (normalIff (visibleChecked rfl))

theorem newestIff : normal kind = "simple".toList ↔ NewestKind kind := normalIff (visibleChecked rfl)

theorem rotationIff : normal kind = "smart".toList ∨ normal kind = "gvs".toList ↔ RotationKind kind :=
  or_congr (normalIff (visibleChecked rfl)) (normalIff (visibleChecked rfl))

theorem newestApart (known : NewestKind kind) : ¬AllKind kind := by
  rw [← allIff, newestIff.mpr known]
  decide

theorem rotationApart (known : RotationKind kind) : ¬AllKind kind ∧ ¬NewestKind kind := by
  rw [← allIff, ← newestIff]
  rcases rotationIff.mpr known with same | same <;> rw [same] <;> decide

theorem kindFree (known : AllKind kind ∨ NewestKind kind ∨ RotationKind kind) : ':' ∉ kind := by
  rw [← Text.memNormal colonSeparates]
  rcases known with known | known | known
  · rcases allIff.mpr known with same | same <;> rw [same] <;> decide
  · rw [newestIff.mpr known]
    decide
  · rcases rotationIff.mpr known with same | same <;> rw [same] <;> decide

theorem allRead (known : AllKind kind) (value : Option (List Char)) :
    readKind (normal kind) value = .ok none := by
  rw [readKind, if_pos (allIff.mpr known)]

/-- Where the empty value is not read, it makes no difference that it counts as missing. -/
theorem filledRead {f : List Char → Except PolicyError Policy} {missing : PolicyError}
    (refused : f [] ≠ .ok p) (value : List Char) :
    (match (some value).filter fun v => v ≠ [] with
      | .none => Except.error missing
      | some v => f v) = .ok p ↔ f value = .ok p := by
  by_cases empty : value = []
  · rw [empty]
    exact iff_of_false (by simp [Option.filter]) refused
  · simp only [Option.filter, decide_eq_true empty, if_true]

theorem newestRead (known : NewestKind kind) : readKind (normal kind) (some (normal value)) = .ok p ↔
    ∃ n, Count value n ∧ p = ofCount n := by
  have read : (readCount (normal value) >>= fun n => .ok (ofCount n)) = .ok p ↔
      ∃ n, Count value n ∧ p = ofCount n := by
    simp only [bindRead, readCountIff, Except.ok.injEq]
    exact exists_congr fun n => and_congr_right fun _ => eq_comm
  have refused : (readCount [] >>= fun n => .ok (ofCount n)) ≠ .ok p := fun given => by cases given
  rw [← read, readKind, if_neg (mt allIff.mp (newestApart known)), if_pos (newestIff.mpr known)]
  exact filledRead refused (normal value)

theorem rotationRead (known : RotationKind kind) : readKind (normal kind) (some (normal value)) = .ok p ↔
    Positional (splitAll ',' value) p ∨ Named (splitAll ',' value) p := by
  obtain ⟨all, simple⟩ := rotationApart known
  have refused : readTiers [] ≠ .ok p := fun given => by cases given
  rw [← readTiersIff, readKind, if_neg (mt allIff.mp all), if_neg (mt newestIff.mp simple),
    if_pos (rotationIff.mpr known)]
  exact filledRead refused (normal value)

theorem unknownRead (all : ¬AllKind kind) (simple : ¬NewestKind kind) (smart : ¬RotationKind kind)
    (value : Option (List Char)) : readKind (normal kind) value ≠ .ok p := by
  rw [readKind, if_neg (mt allIff.mp all), if_neg (mt newestIff.mp simple),
    if_neg (mt rotationIff.mp smart)]
  simp

theorem loneRead : readKind (normal kind) .none = .ok p ↔ AllKind kind ∧ p = none := by
  by_cases all : AllKind kind
  · rw [allRead all]
    simp [all, eq_comm]
  · rw [readKind, if_neg (mt allIff.mp all)]
    simp only [all, false_and, iff_false]
    split
    · simp
    · split <;> simp

theorem readCut (free : ':' ∉ kind) :
    read (kind ++ ':' :: value) = readKind (normal kind) (some (normal value)) := by
  obtain ⟨name, rest, cut, named, valued⟩ := splitNormal colonSeparates free value
  rw [normal] at cut
  simp only [read, cut, named, valued]

theorem readWhole (free : ':' ∉ kind) : read kind = readKind (normal kind) .none := by
  have none : splitFirst? ':' (Text.lower (Text.trim kind)) = .none :=
    Text.splitFirst?_none (mt (Text.memNormal colonSeparates).mp free)
  simp only [read, none]
  rfl

theorem readIff {cs : List Char} : read cs = .ok p ↔ Denotes cs p := by
  constructor
  · intro given
    by_cases colon : ':' ∈ cs
    · obtain ⟨kind, value, rfl, free⟩ := List.eq_append_cons_of_mem colon
      rw [readCut free] at given
      by_cases all : AllKind kind
      · cases (allRead all _).symm.trans given
        exact .allOf all
      by_cases simple : NewestKind kind
      · obtain ⟨n, count, rfl⟩ := (newestRead simple).mp given
        exact .newest simple count (clampClamped n)
      by_cases smart : RotationKind kind
      · rw [← Text.joinSplit ',' value]
        exact .rotation smart (Text.splitAllNonempty ',' value) ((rotationRead smart).mp given)
      · exact absurd given (unknownRead all simple smart _)
    · rw [readWhole colon] at given
      obtain ⟨all, rfl⟩ := loneRead.mp given
      exact .all all
  · intro denotes
    cases denotes with
    | all known =>
      rw [readWhole (kindFree (.inl known))]
      exact loneRead.mpr ⟨known, rfl⟩
    | allOf known =>
      rw [readCut (kindFree (.inl known))]
      exact allRead known _
    | newest known count clamped =>
      rw [readCut (kindFree (.inr (.inl known)))]
      exact (newestRead known).mpr ⟨_, count, congrArg simple (clampedIff.mp clamped)⟩
    | @rotation _ parts _ known some tiers =>
      have free : ∀ part ∈ parts, ',' ∉ part := by
        rcases tiers with positional | named
        · exact fun part member => (positionalSplits positional part member).2
        · exact fun part member => (namedSplits named part member).2
      rw [readCut (kindFree (.inr (.inr known))), rotationRead known, Text.splitAll_intercalate some free]
      exact tiers

theorem denotesOne {cs : List Char} {q : Policy} (first : Denotes cs p) (second : Denotes cs q) : p = q :=
  Except.ok.inj ((readIff.mpr first).symm.trans (readIff.mpr second))

end Kinds

/-- The texts with a meaning are read as what they mean, and every other text is an error. -/
theorem textGrammar : (∀ s p, ofText s = .ok p ↔ Denotes s.toList p) ∧
    ∀ s, (∃ e, ofText s = .error e) ↔ ∀ p, ¬Denotes s.toList p := by
  refine ⟨fun s p => readIff, fun s => ?_⟩
  simp only [← readIff]
  change (∃ e, read s.toList = .error e) ↔ _
  cases read s.toList with
  | error e => simp
  | ok p => simp

example : ofText "gvs:daily=3,weekly=1,daily=5" = .ok (.smart 5 1 0 0) := by rfl

section Written
variable {token : List Char}

theorem speltBare (bare : Bare token) : Spelt token token :=
  ⟨[], token, [], nofun, nofun, bareLower bare, by simp⟩

theorem countWritten (n : UInt32) : Count (digits n.toNat) n.toNat := by
  have below := n.toNat_lt
  have all := Text.digitsAll n.toNat
  have numeral : Numeral (digits n.toNat) n.toNat := by
    have unsigned : Numeral (digits n.toNat) (Text.valueOf (digits n.toNat)) :=
      .unsigned Nat.toDigits_ne_nil all
    rwa [Text.valueOf_digits] at unsigned
  exact ⟨⟨by omega, by omega⟩, digits n.toNat, numeral, speltBare fun c member => bareDigit (all c member)⟩

theorem clampedWritten (n : UInt32) : Clamped n.toNat n := clampedIff.mpr (clamp_toNat n).symm

theorem textDenotes (p : Policy) : Denotes p.text p := by
  cases p with
  | none => exact .all (.inl (speltBare (bareChecked rfl)))
  | simple n =>
    have cut : (simple n).text = "simple".toList ++ ':' :: digits n.toNat := rfl
    rw [cut]
    exact .newest (speltBare (bareChecked rfl)) (countWritten n) (clampedWritten n)
  | smart d w m y =>
    have cut : (smart d w m y).text = "smart".toList ++
        ':' :: [','].intercalate [digits d.toNat, digits w.toNat, digits m.toNat, digits y.toNat] := by
      have joined (a b c d : List Char) : "smart:".toList ++ a ++ ',' :: b ++ ',' :: c ++ ',' :: d =
          "smart".toList ++ ':' :: [','].intercalate [a, b, c, d] := by simp [List.intercalate]
      exact joined _ _ _ _
    have counts : List.Forall₂ Count [digits d.toNat, digits w.toNat, digits m.toNat, digits y.toNat]
        [(d.toNat : Int), w.toNat, m.toNat, y.toNat] :=
      .cons (countWritten d) (.cons (countWritten w) (.cons (countWritten m) (.cons (countWritten y) .nil)))
    rw [cut]
    refine .rotation (.inl (speltBare (bareChecked rfl))) (List.cons_ne_nil _ _)
      (.inl ⟨Nat.le_refl 4, _, counts, d, w, m, y, rfl, fun t => ?_⟩)
    cases t with
    | daily => exact clampedWritten d
    | weekly => exact clampedWritten w
    | monthly => exact clampedWritten m
    | yearly => exact clampedWritten y

theorem writtenRead (p : Policy) : ofText (toText p) = .ok p := by
  rw [ofText, toText, String.toList_ofList]
  exact readIff.mpr (textDenotes p)

/-- A policy is read back from the text it is written as; so to write what was read and to read that
changes nothing. -/
theorem textReadBack : (∀ p, ofText (toText p) = .ok p) ∧
    ∀ s, (ofText s >>= fun p => ofText (toText p)) = ofText s := by
  refine ⟨writtenRead, fun s => ?_⟩
  cases ofText s with
  | error e => rfl
  | ok p => exact writtenRead p

end Written
end BackupRotation.Policy
