import BackupRotation.Proofs.PolicyTexts
import BackupRotation.Proofs.Records
/-! The forms in which a policy with counts is entered: its constructor, its texts, an object of JSON and
a section of the settings. Whatever the order of the fields and whichever of zero are left out, all of
them give the same policy, and all of them refuse a count that 64 bits do not hold. -/
namespace BackupRotation

namespace Record
open Json (numeral)
open Policy (Entry Readable)
variable {members given : List (String × Json)} {name : String} {p q : Policy}

theorem givesUnique (first : Gives members p) (second : Gives members q) : p = q :=
  Option.some.inj ((policyGiven.mpr first).symm.trans (policyGiven.mpr second))

theorem givesResult {result : Option Policy} (given : ∀ q, result = some q → Gives members q)
    (refused : result = none → ∀ q, ¬Gives members q) : Gives members p ↔ result = some p := by
  cases result with
  | none => simp [refused rfl p]
  | some q =>
    refine ⟨fun gives => ?_, given p⟩
    rw [givesUnique (given q rfl) gives]

theorem namedPerm (same : members.Perm given) : (named name members).Perm (named name given) :=
  (same.filter _).map _

theorem namedCons (m : String × Json) : named name (m :: members) =
    if m.1 = name then m.2 :: named name members else named name members := by
  simp only [named, List.filter_cons, decide_eq_true_eq]
  split <;> rfl

theorem namedAbsent (absent : ∀ m ∈ members, m.1 ≠ name) : named name members = [] := by
  simpa [named] using absent

theorem namedOnly {j : Json} (same : members.Perm given) (only : named name given = [j]) :
    named name members = [j] :=
  List.perm_singleton.mp (only ▸ namedPerm same)

theorem namedMissing (same : members.Perm given) (missing : named name given = []) :
    named name members = [] :=
  List.perm_nil.mp (missing ▸ namedPerm same)

/-- The members of a policy of a kind, its counts written in some way. -/
def fieldsOf (value : Int → Json) (kind : String) (fields : List (String × Int)) : List (String × Json) :=
  ("kind", .string kind) :: fields.map fun f => (f.1, value f.2)

/-- Values that are read as counts as far as 64 bits hold them. -/
def Counts (value : Int → Json) : Prop :=
  ∀ n, count? (value n) = if Readable n then some (Policy.clamp n) else none

theorem readableWithin {n : Int} (readable : Readable n) : Json.Within64 n :=
  ⟨readable.1, Int.lt_trans readable.2 (by decide)⟩

theorem countsNumber : Counts .number := fun _ => rfl

theorem countsNumeral : Counts numeral := by
  intro n
  by_cases within : Json.Within64 n
  · rw [Json.numeralWithin within]
    rfl
  · rw [numeral, if_neg within, if_neg (mt readableWithin within)]
    dsimp only
    split <;> rfl

theorem tierApart (t : Tier) : t.name ≠ "kind" := by cases t <;> decide

section Kinds
variable {value : Int → Json} {n : Int}

theorem simpleGives (counts : Counts value)
    (same : members.Perm (fieldsOf value "simple" [("keep_count", n)])) :
    Gives members p ↔ (if Readable n then some (Policy.ofCount n) else none) = some p := by
  have kind : named "kind" members = [.string "simple"] := namedOnly same (by simp [fieldsOf, named])
  have only : named "keep_count" members = [value n] := namedOnly same (by simp [fieldsOf, named])
  by_cases readable : Readable n
  · rw [if_pos readable]
    refine givesResult (fun q own => ?_) fun absent => by cases absent
    cases own
    exact .simple kind only ((counts n).trans (if_pos readable))
  · rw [if_neg readable]
    refine givesResult (fun _ own => by cases own) fun _ q gives => ?_
    cases gives with
    | none other => simp [kind] at other
    | smart other _ => simp [kind] at other
    | simple _ found count =>
      obtain rfl := List.singleton_inj.mp (only.symm.trans found)
      simp [counts n, readable] at count

variable {e : Entry}

theorem tierFields (value : Int → Json) (counts : Tier → Int) {order : List Tier} (once : order.Nodup)
    (t : Tier) :
    named t.name ((order.map fun u => (u.name, counts u)).map fun f => (f.1, value f.2)) =
      if t ∈ order then [value (counts t)] else [] := by
  induction order with
  | nil => rfl
  | cons u order ih =>
    obtain ⟨fresh, once⟩ := List.nodup_cons.mp once
    have rest := ih once
    have names : u.name = t.name ↔ u = t := by cases u <;> cases t <;> decide
    rw [List.map_cons, List.map_cons, namedCons, rest]
    by_cases own : u = t
    · subst own
      simp [fresh]
    · simp [names, own, Ne.symm own]

theorem smartCounts (counts : Counts value) (same : members.Perm (fieldsOf value "smart" e.fields))
    (t : Tier) : countUnder? members t.name =
      if Readable (e.counts t) then some (Policy.clamp (e.counts t)) else none := by
  have found : named t.name (fieldsOf value "smart" e.fields) =
      if t ∈ e.order then [value (e.counts t)] else [] := by
    rw [fieldsOf, namedCons, if_neg (tierApart t).symm]
    exact tierFields value e.counts e.once t
  unfold countUnder?
  by_cases member : t ∈ e.order
  · rw [namedOnly same (found.trans (if_pos member))]
    exact counts (e.counts t)
  · rw [namedMissing same (found.trans (if_neg member)), e.zero t member]
    rfl

theorem smartGives (counts : Counts value) (same : members.Perm (fieldsOf value "smart" e.fields)) :
    Gives members p ↔ e.policy? = some p := by
  have kind : named "kind" members = [.string "smart"] := by
    refine namedOnly same ?_
    rw [fieldsOf, namedCons, if_pos rfl, namedAbsent]
    simp [Entry.fields, tierApart]
  have each := smartCounts counts same
  by_cases all : e.AllReadable
  · rw [Entry.policyReadable all]
    refine givesResult (fun q own => ?_) fun absent => by cases absent
    cases own
    refine .smart kind fun t => ?_
    rw [each, if_pos (e.allReadable.mp all t (Tier.mem_all t))]
    cases t <;> rfl
  · rw [Entry.policyUnreadable all]
    refine givesResult (fun _ own => by cases own) fun _ q gives => ?_
    cases gives with
    | none other => simp [kind] at other
    | simple other _ _ => simp [kind] at other
    | smart _ given =>
      refine all fun t _ => ?_
      by_contra beyond
      have read := given t
      rw [each, if_neg beyond] at read
      cases read

end Kinds

end Record

section Forms
open Record (Counts Gives fieldsOf)
open Policy (Entry Readable)
variable {texts : List (List Char)} {kind : String} {fields : List (String × Int)} {result : Option Policy}

def tableOf (kind : String) (fields : List (String × Int)) : Toml.Table :=
  ("kind", .string kind) :: fields.map fun f => (f.1, .integer f.2)

/-- Every form in which a policy is entered comes to the result: a text, an object with its fields in any
order, and a section of the settings with the fields or with the text. -/
structure EachForm (texts : List (List Char)) (kind : String) (fields : List (String × Int))
    (result : Option Policy) : Prop where
  text : ∀ t ∈ texts, (Policy.ofText (String.ofList t)).toOption = result
  object : ∀ members, members.Perm (fieldsOf .number kind fields) →
    ∀ text ∈ [Json.toText (.object members), Json.toPrettyText (.object members)],
      (Json.ofText? text).bind Record.policy? = result
  structured : ∀ t : Toml.Table, t.Perm (tableOf kind fields) → (Rotation.read (.table t)).toOption = result
  quoted : ∀ text ∈ texts, ∀ t : Toml.Table, t.get? "policy" = some (.string (String.ofList text)) →
    (Rotation.read (.table t)).toOption = result

theorem someOfOk {ε α : Type} {x : Except ε α} {a : α} : x.toOption = some a ↔ x = .ok a := by
  cases x <;> simp [Except.toOption]

section Objects
open Json (Reads compact numeral pretty)

/-- What a value without parts is read as. -/
def readAs : Json → Json
  | .number n => numeral n
  | j => j

theorem fieldReads {m : String × Json} (member : m ∈ fieldsOf .number kind fields) :
    Reads (compact m.2) (readAs m.2) ∧ Reads (pretty 1 m.2) (readAs m.2) := by
  rcases List.mem_cons.mp member with rfl | counted
  · exact ⟨Json.readsString kind, Json.readsString kind⟩
  · obtain ⟨f, _, rfl⟩ := List.mem_map.mp counted
    exact ⟨Json.readsInteger f.2, Json.readsInteger f.2⟩

theorem fieldKept (readable : ∀ f ∈ fields, Readable f.2) {m : String × Json}
    (member : m ∈ fieldsOf numeral kind fields) : Record.keeps 1 m.2 = true := by
  rcases List.mem_cons.mp member with rfl | counted
  · rfl
  · obtain ⟨f, field, rfl⟩ := List.mem_map.mp counted
    rw [Json.numeralWithin (Record.readableWithin (readable f field))]
    rfl

theorem objectForm
    (gives : ∀ members p, members.Perm (fieldsOf numeral kind fields) → (Gives members p ↔ result = some p))
    (readable : result ≠ none → ∀ f ∈ fields, Readable f.2)
    {members : List (String × Json)} (same : members.Perm (fieldsOf .number kind fields)) :
    ∀ text ∈ [Json.toText (.object members), Json.toPrettyText (.object members)],
      (Json.ofText? text).bind Record.policy? = result := by
  intro text member
  have line := Json.compactObjectRead fun m own => (fieldReads (same.mem_iff.mp own)).1
  have lines := Json.prettyObjectRead fun m own => (fieldReads (same.mem_iff.mp own)).2
  have taken : (members.map fun m => (m.1, readAs m.2)).Perm (fieldsOf numeral kind fields) := by
    have mapped := same.map fun m => (m.1, readAs m.2)
    simpa [fieldsOf, readAs, Function.comp_def] using mapped
  rw [Json.bothTexts line lines text member, Option.bind_some]
  refine Option.ext fun p => ⟨fun found => ?_, fun own => ?_⟩
  · exact (gives _ p taken).mp (Record.policyGives found)
  · have all := readable (by simp [own])
    exact Record.policyKept (fun m own => fieldKept all (taken.mem_iff.mp own)) ((gives _ p taken).mpr own)

end Objects

theorem structuredForm
    (gives : ∀ members p, members.Perm (fieldsOf .number kind fields) → (Gives members p ↔ result = some p))
    (apart : ∀ f ∈ fields, f.1 ≠ "policy") {t : Toml.Table} (same : t.Perm (tableOf kind fields)) :
    (Rotation.read (.table t)).toOption = result := by
  have other : ∀ e ∈ t, e.1 ≠ "policy" := by
    intro e member
    rcases List.mem_cons.mp (same.mem_iff.mp member) with rfl | counted
    · simp
    · obtain ⟨f, field, rfl⟩ := List.mem_map.mp counted
      exact apart f field
  have text : Rotation.policyText? (.table t) = none := by
    have missing : t.get? "policy" = none := by
      simpa [Toml.Table.get?] using other
    simp only [Rotation.policyText?, missing]
  have members : (Toml.recordMembers t).Perm (fieldsOf .number kind fields) := by
    have mapped := same.map fun e => (e.1, e.2.record)
    rw [Toml.recordMembersMap]
    simpa [tableOf, fieldsOf, Toml.record, Function.comp_def] using mapped
  refine Option.ext fun p => ?_
  rw [someOfOk, Rotation.readRecord text, Rotation.structuredTable]
  exact gives _ p members

theorem quotedForm {text : String} {t : Toml.Table} (quoted : t.get? "policy" = some (.string text)) :
    (Rotation.read (.table t)).toOption = (Policy.ofText text).toOption := by
  have given : Rotation.policyText? (.table t) = some text := by simp only [Rotation.policyText?, quoted]
  exact Option.ext fun p => by rw [someOfOk, someOfOk, Rotation.readText given]

theorem eachForm
    (text : ∀ t ∈ texts, (Policy.read t).toOption = result)
    (gives : ∀ {value members p}, Counts value → members.Perm (fieldsOf value kind fields) →
      (Gives members p ↔ result = some p))
    (readable : result ≠ none → ∀ f ∈ fields, Readable f.2)
    (apart : ∀ f ∈ fields, f.1 ≠ "policy") : EachForm texts kind fields result where
  text t member := by simpa [Policy.ofText] using text t member
  object members same := objectForm (fun _ _ => gives Record.countsNumeral) readable same
  structured t same := structuredForm (fun _ _ => gives Record.countsNumber) apart same
  quoted written member t given := by
    simpa [quotedForm given, Policy.ofText] using text written member

theorem smartForms (e : Entry) : EachForm e.texts "smart" e.fields e.policy? := by
  refine eachForm e.textsRead Record.smartGives (fun known => ?_) ?_
  · by_contra beyond
    have other : ¬e.AllReadable := fun all => beyond (List.forall_mem_map.mpr all)
    exact known (Entry.policyUnreadable other)
  · have apart (t : Tier) : t.name ≠ "policy" := by cases t <;> decide
    exact List.forall_mem_map.mpr fun t _ => apart t

theorem simpleForms (n : Int) :
    EachForm ["simple:".toList ++ Text.signedDigits n] "simple" [("keep_count", n)]
    (if Readable n then some (Policy.ofCount n) else none) := by
  refine eachForm ?_ Record.simpleGives ?_ ?_
  · simpa using Policy.simpleRead n
  · simp
  · simp

/-- However a policy with counts is entered, it is the one that its constructor makes of them, as long as
64 bits hold each count, and it is refused in every form otherwise. -/
theorem entryFormsAgree :
    (∀ e : Entry, EachForm e.texts "smart" e.fields
      (if ∀ t ∈ e.order, Readable (e.counts t) then
        some (Policy.ofCounts (e.counts .daily) (e.counts .weekly) (e.counts .monthly) (e.counts .yearly))
      else none)) ∧
    ∀ n : Int, EachForm ["simple:".toList ++ Text.signedDigits n] "simple" [("keep_count", n)]
      (if Readable n then some (Policy.ofCount n) else none) :=
  ⟨smartForms, simpleForms⟩

theorem entryFormsAgreeNegative :
    let counts : Tier → Int := fun t => match t with
      | .daily => 7
      | .monthly => -2
      | .yearly => 9223372036854775807
      | .weekly => 0
    let e : Entry := ⟨counts, [.yearly, .daily, .monthly], by decide, fun t => by cases t <;> decide⟩
    e.named = "smart:yearly=9223372036854775807,daily=7,monthly=-2".toList ∧
      EachForm e.texts "smart" e.fields (some (.smart 7 0 0 4294967295)) := by
  intro counts e
  have forms := entryFormsAgree.1 e
  have result : (if ∀ t ∈ e.order, Readable (e.counts t) then
      some (Policy.ofCounts (e.counts .daily) (e.counts .weekly) (e.counts .monthly) (e.counts .yearly))
    else none) = some (.smart 7 0 0 4294967295) := by decide
  rw [result] at forms
  refine ⟨?_, forms⟩
  subst e counts
  decide +kernel

end Forms
end BackupRotation
