import BackupRotation.Policy.Text
import BackupRotation.Proofs.Numerals
import BackupRotation.Proofs.Trimming
/-! The text forms of a policy with counts. A count is read if 64 bits hold it; the tiers stand in their
own order, or in any order with their names, and one that is not named is zero. -/
namespace BackupRotation

namespace Text
variable {sep : Char} {part a b : List Char}

/-- Neither a blank nor a capital letter is among the characters. -/
def Bare (cs : List Char) : Prop := ∀ c ∈ cs, isBlank c = false ∧ c.toLower = c

theorem bareChecked {cs : List Char} (each : cs.all (fun c => !isBlank c && c.toLower == c) = true) :
    Bare cs := by
  simpa [Bare] using each

theorem bareAppend (first : Bare a) (second : Bare b) : Bare (a ++ b) :=
  List.forall_mem_append.mpr ⟨first, second⟩

theorem bareTrim (bare : Bare a) : trim a = a := visibleTrim fun c member => (bare c member).1

theorem bareLower (bare : Bare a) : lower a = a := by
  have same : ∀ c ∈ a, c.toLower = id c := fun c member => (bare c member).2
  rw [lower, List.map_congr_left same, List.map_id]

theorem bareDigit {c : Char} (digit : isDigit c = true) : isBlank c = false ∧ c.toLower = c := by
  refine ⟨digitVisible digit, ?_⟩
  have code := digitCode digit
  rcases lowerCode c with same | ⟨least, _, _⟩
  · exact same
  · omega

theorem bareSigned (n : Int) : Bare (signedDigits n) := by
  have digits (n : Nat) : Bare (digits n) := fun c member => bareDigit (digitsAll n c member)
  unfold signedDigits
  split
  · exact List.forall_mem_cons.mpr ⟨by decide, digits _⟩
  · exact digits _

theorem bareJoined {parts : List (List Char)} (separator : Bare [sep]) (each : ∀ part ∈ parts, Bare part) :
    Bare ([sep].intercalate parts) := by
  induction parts with
  | nil => simp [Bare, List.intercalate]
  | cons part parts ih =>
    obtain ⟨first, rest⟩ := List.forall_mem_cons.mp each
    cases parts with
    | nil => simpa [List.intercalate] using first
    | cons next parts =>
      have joined : [sep].intercalate (part :: next :: parts) =
          part ++ ([sep] ++ [sep].intercalate (next :: parts)) := by simp [List.intercalate]
      rw [joined]
      exact bareAppend first (bareAppend separator (ih rest))

theorem signedFilled (n : Int) : signedDigits n ≠ [] := by
  obtain ⟨c, cs, filled, _⟩ := digitsFilled n.natAbs
  unfold signedDigits
  split <;> simp [filled]

theorem signedFree {n : Int} (minus : sep ≠ '-') (other : isDigit sep = false) : sep ∉ signedDigits n := by
  have digits (n : Nat) : sep ∉ digits n := digitsFree other (digitsAll n)
  unfold signedDigits
  split
  · simp [minus, digits]
  · exact digits _

end Text

namespace Policy
open Text (Bare bareAppend bareChecked bareJoined bareLower bareSigned bareTrim signedDigits
  signedFilled signedFree splitAll)

/-- The integers that are read as counts. -/
def Readable (n : Int) : Prop := -9223372036854775808 ≤ n ∧ n < 9223372036854775808
instance (n : Int) : Decidable (Readable n) := by unfold Readable; infer_instance

theorem toOptionBind {α β : Type} (x : Except PolicyError α) (f : α → Except PolicyError β) :
    (x >>= f).toOption = x.toOption.bind fun a => (f a).toOption := by
  cases x <;> rfl

theorem readCountSigned (n : Int) :
    (readCount (signedDigits n)).toOption = if Readable n then some n else .none := by
  have read : Text.integer64? (signedDigits n) = if Readable n then some n else .none :=
    Text.integer64Signed n
  simp only [readCount, bareTrim (bareSigned n), read]
  by_cases readable : Readable n
  · simp only [if_pos readable, Except.toOption]
  · simp only [if_neg readable, Except.toOption]

theorem readCountsSigned (ns : List Int) :
    (readCounts (ns.map signedDigits)).toOption = if ∀ n ∈ ns, Readable n then some ns else .none := by
  induction ns with
  | nil => rfl
  | cons n ns ih =>
    simp only [List.map_cons, readCounts, toOptionBind, readCountSigned, ih]
    simp only [List.forall_mem_cons]
    by_cases first : Readable n
    · by_cases rest : ∀ n ∈ ns, Readable n
      · rw [if_pos first, if_pos rest, if_pos ⟨first, rest⟩]
        rfl
      · rw [if_pos first, if_neg rest, if_neg (mt And.right rest)]
        rfl
    · rw [if_neg first, if_neg (mt And.left first)]
      rfl

def ofTiers (counts : Tier → Int) : Policy :=
  ofCounts (counts .daily) (counts .weekly) (counts .monthly) (counts .yearly)

/-- Parts that stand in a list of tiers as they are. -/
structure Listed (parts : List (List Char)) : Prop where
  some : parts ≠ []
  bare : ∀ part ∈ parts, Bare part
  free : ∀ part ∈ parts, ',' ∉ part
  filled : ∀ part ∈ parts, part ≠ []

def joined (parts : List (List Char)) : List Char := [','].intercalate parts

section Parts
variable {kind value : List Char} {parts : List (List Char)}

theorem readParts (kindBare : Bare kind) (valueBare : Bare value) (free : ':' ∉ kind) :
    read (kind ++ ':' :: value) = readKind kind (some value) := by
  have colon : Bare [':'] := bareChecked rfl
  have bare : Bare (kind ++ ':' :: value) := bareAppend kindBare (bareAppend colon valueBare)
  simp only [read, bareTrim bare, bareLower bare, Text.splitFirst?_append value free, bareTrim kindBare,
    bareTrim valueBare]

theorem simpleRead (n : Int) : (read ("simple:".toList ++ signedDigits n)).toOption =
    if Readable n then some (ofCount n) else .none := by
  have bare : Bare "simple".toList := bareChecked rfl
  have whole := readParts bare (bareSigned n) (by decide)
  have kind : readKind "simple".toList (some (signedDigits n)) =
      readCount (signedDigits n) >>= fun n => .ok (ofCount n) := by
    simp [readKind, Option.filter, signedFilled n]
  have colon : "simple:".toList = "simple".toList ++ [':'] := rfl
  rw [colon, List.append_assoc, List.singleton_append, whole, kind, toOptionBind, readCountSigned]
  by_cases readable : Readable n
  · simp only [if_pos readable, Option.bind_some, Except.toOption]
  · simp only [if_neg readable, Option.bind_none]

theorem splitJoined (listed : Listed parts) : splitAll ',' (joined parts) = parts :=
  Text.splitAll_intercalate listed.some listed.free

theorem trimJoined (listed : Listed parts) : (splitAll ',' (joined parts)).map Text.trim = parts := by
  have same : ∀ part ∈ parts, Text.trim part = id part := fun part member => bareTrim (listed.bare part member)
  rw [splitJoined listed, List.map_congr_left same, List.map_id]

theorem smartRead (listed : Listed parts) :
    read ("smart:".toList ++ joined parts) = readTiers (joined parts) := by
  have bare : Bare "smart".toList := bareChecked rfl
  have comma : Bare [','] := bareChecked rfl
  have value : Bare (joined parts) := bareJoined comma listed.bare
  have filled : joined parts ≠ [] := by
    intro empty
    have only := splitJoined listed
    rw [empty] at only
    exact listed.filled [] (by simp [← only, splitAll]) rfl
  have colon : "smart:".toList = "smart".toList ++ [':'] := rfl
  rw [colon, List.append_assoc, List.singleton_append, readParts bare value (by decide)]
  simp [readKind, Option.filter, filled]

theorem positionalTiers (listed : Listed parts) (unnamed : ∀ part ∈ parts, '=' ∉ part) :
    readTiers (joined parts) = readPositional parts := by
  have none : parts.countP (fun part => '=' ∈ part) = 0 :=
    List.countP_eq_zero.mpr fun part member => by simpa using unnamed part member
  simp only [readTiers, trimJoined listed, none, if_true]

theorem namedTiers (listed : Listed parts) (named : ∀ part ∈ parts, '=' ∈ part) :
    readTiers (joined parts) = readNamed (fun _ => 0) parts >>= fun counts => .ok (ofTiers counts) := by
  have all : parts.countP (fun part => '=' ∈ part) = parts.length :=
    List.countP_eq_length.mpr fun part member => by simpa using named part member
  have some : parts.length ≠ 0 := by simpa using listed.some
  simp only [readTiers, trimJoined listed, all, if_neg some, if_true, ofTiers]

end Parts

/-- The counts of the tiers as they are entered: some of the tiers in some order, and the others zero. -/
structure Entry where
  counts : Tier → Int
  order : List Tier
  once : order.Nodup
  zero : ∀ t, t ∉ order → counts t = 0

namespace Entry
variable (e : Entry)

def AllReadable : Prop := ∀ t ∈ e.order, Readable (e.counts t)
instance : Decidable e.AllReadable := by unfold AllReadable; infer_instance

/-- The policy of the counts, if all of them are read. -/
def policy? : Option Policy := if e.AllReadable then some (ofTiers e.counts) else .none

def fields : List (String × Int) := e.order.map fun t => (t.name, e.counts t)

def count (t : Tier) : List Char := signedDigits (e.counts t)
def field (t : Tier) : List Char := t.name.toList ++ '=' :: e.count t

def positional : List Char := "smart:".toList ++ joined (Tier.all.map e.count)
def named : List Char := "smart:".toList ++ joined (e.order.map e.field)

/-- The texts of the entry; where no tier is named, the counts stand without names alone. -/
def texts : List (List Char) := e.positional :: if e.order = [] then [] else [e.named]

theorem policyReadable {e : Entry} (all : e.AllReadable) : e.policy? = some (ofTiers e.counts) := if_pos all

theorem policyUnreadable {e : Entry} (beyond : ¬e.AllReadable) : e.policy? = .none := if_neg beyond

theorem allReadable : e.AllReadable ↔ ∀ t ∈ Tier.all, Readable (e.counts t) := by
  refine ⟨fun all t _ => ?_, fun all t _ => all t (Tier.mem_all t)⟩
  by_cases member : t ∈ e.order
  · exact all t member
  · rw [e.zero t member]
    decide

theorem countsListed : Listed (Tier.all.map e.count) where
  some := by simp [Tier.all]
  bare := List.forall_mem_map.mpr fun t _ => bareSigned (e.counts t)
  free := List.forall_mem_map.mpr fun t _ => signedFree (by decide) rfl
  filled := List.forall_mem_map.mpr fun t _ => signedFilled (e.counts t)

theorem positionalRead : (read e.positional).toOption = e.policy? := by
  have unnamed : ∀ part ∈ Tier.all.map e.count, '=' ∉ part :=
    List.forall_mem_map.mpr fun t _ => signedFree (by decide) rfl
  have counts := readCountsSigned (Tier.all.map e.counts)
  have written : (Tier.all.map e.counts).map signedDigits = Tier.all.map e.count := List.map_map
  have four : ¬4 < (Tier.all.map e.count).length := by simp [Tier.all]
  have whole : read e.positional = readPositional (Tier.all.map e.count) :=
    (smartRead e.countsListed).trans (positionalTiers e.countsListed unnamed)
  rw [whole, readPositional, if_neg four, toOptionBind, ← written, counts]
  by_cases all : e.AllReadable
  · have each : ∀ n ∈ Tier.all.map e.counts, Readable n := List.forall_mem_map.mpr (e.allReadable.mp all)
    rw [policyReadable all, if_pos each]
    rfl
  · have other : ¬∀ n ∈ Tier.all.map e.counts, Readable n :=
      fun each => all (e.allReadable.mpr (List.forall_mem_map.mp each))
    rw [policyUnreadable all, if_neg other]
    rfl

theorem fieldBare (t : Tier) : Bare (e.field t) := by
  have name : Bare t.name.toList := by cases t <;> exact bareChecked rfl
  have equals : Bare ['='] := bareChecked rfl
  exact bareAppend name (bareAppend equals (bareSigned _))

theorem fieldFree (t : Tier) : ',' ∉ e.field t := by
  have name : ',' ∉ t.name.toList := by cases t <;> decide
  have count : ',' ∉ e.count t := signedFree (by decide) rfl
  simp [field, name, count]

theorem fieldsListed (some : e.order ≠ []) : Listed (e.order.map e.field) where
  some := by simpa using some
  bare := List.forall_mem_map.mpr fun t _ => e.fieldBare t
  free := List.forall_mem_map.mpr fun t _ => e.fieldFree t
  filled := List.forall_mem_map.mpr fun t _ => by simp [field]

theorem fieldRead (counts : Tier → Int) (t : Tier) (parts : List (List Char)) :
    readNamed counts (e.field t :: parts) = readCount (e.count t) >>= fun n =>
      readNamed (fun u => if u = t then n else counts u) parts := by
  have name : '=' ∉ t.name.toList ∧ Text.trim t.name.toList = t.name.toList := by cases t <;> decide
  have split : Text.splitFirst? '=' (e.field t) = some (t.name.toList, e.count t) :=
    Text.splitFirst?_append _ name.1
  simp only [readNamed, split, Option.getD_some, name.2, Tier.ofName?_name]

theorem fieldsRead (counts : Tier → Int) (order : List Tier) :
    (readNamed counts (order.map e.field)).toOption =
      if ∀ t ∈ order, Readable (e.counts t) then some fun t => if t ∈ order then e.counts t else counts t
      else .none := by
  -- the counts change with each field, and a later field of a tier would win
  induction order generalizing counts with
  | nil => simp [readNamed, Except.toOption]
  | cons t order ih =>
    simp only [List.map_cons, fieldRead, toOptionBind, count, readCountSigned, List.forall_mem_cons]
    by_cases first : Readable (e.counts t)
    · rw [if_pos first, Option.bind_some, ih]
      by_cases rest : ∀ t ∈ order, Readable (e.counts t)
      · rw [if_pos rest, if_pos ⟨first, rest⟩]
        congr
        funext u
        by_cases own : u = t
        · simp [own]
        · simp [own]
      · rw [if_neg rest, if_neg (mt And.right rest)]
    · rw [if_neg first, if_neg (mt And.left first)]
      rfl

theorem namedRead (some : e.order ≠ []) : (read e.named).toOption = e.policy? := by
  have listed := e.fieldsListed some
  have named : ∀ part ∈ e.order.map e.field, '=' ∈ part :=
    List.forall_mem_map.mpr fun t _ => by simp [field]
  have entered : (fun t => if t ∈ e.order then e.counts t else 0) = e.counts := by
    funext t
    split
    · rfl
    · exact (e.zero t ‹_›).symm
  have whole : read e.named =
      readNamed (fun _ => 0) (e.order.map e.field) >>= fun counts => .ok (ofTiers counts) :=
    (smartRead listed).trans (namedTiers listed named)
  rw [whole, toOptionBind, fieldsRead, entered]
  by_cases all : ∀ t ∈ e.order, Readable (e.counts t)
  · rw [policyReadable all, if_pos all]
    rfl
  · rw [policyUnreadable all, if_neg all]
    rfl

theorem textsRead : ∀ text ∈ e.texts, (read text).toOption = e.policy? := by
  intro text member
  rcases List.mem_cons.mp member with rfl | named
  · exact e.positionalRead
  · by_cases empty : e.order = []
    · simp [empty] at named
    · rw [if_neg empty, List.mem_singleton] at named
      exact named ▸ e.namedRead empty

end Entry

end Policy
end BackupRotation
