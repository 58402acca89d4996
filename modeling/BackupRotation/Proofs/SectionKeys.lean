import BackupRotation.Settings.Document
import Mathlib.Data.List.Forall2
/-! The keys of a rotation section that its policy is read from. A section is understood by these
alone: whatever stands under other keys is dropped, and nothing is told about it. -/
namespace BackupRotation

namespace Toml

theorem recordMembersMap (t : Table) : recordMembers t = t.map fun e => (e.1, e.2.record) := by
  induction t with
  | nil => rfl
  | cons e t ih => rw [recordMembers, ih, List.map_cons]

end Toml

def Policy.fields : Policy → List String
  | .none => []
  | .simple _ => ["keep_count"]
  | .smart .. => Tier.all.map Tier.name

namespace Record
variable {members : List (String × Json)} {name : String}

theorem namedFilter (stays : String → Bool) (stay : stays name = true) :
    named name (members.filter fun m => stays m.1) = named name members := by
  simp only [named, List.filter_filter]
  refine congrArg _ (List.filter_congr fun m _ => ?_)
  by_cases same : m.1 = name
  · simp [same, stay]
  · simp [same]

theorem countRead (n : UInt32) : count? (.number (n.toNat : Int)) = some n := by
  have below := n.toNat_lt
  have fits : -9223372036854775808 ≤ (n.toNat : Int) ∧ (n.toNat : Int) < 9223372036854775808 := by
    omega
  rw [count?, if_pos fits, Policy.clamp_toNat]

def countUnder? (members : List (String × Json)) (name : String) : Option UInt32 :=
  match named name members with
  | [] => some 0
  | [j] => count? j
  | _ => none

/-- What the members of a record have to say for it to be the policy. -/
inductive Gives (members : List (String × Json)) : Policy → Prop where
  | none (kind : named "kind" members = [.string "none"]) : Gives members .none
  | simple {n : UInt32} {j : Json} (kind : named "kind" members = [.string "simple"])
      (only : named "keep_count" members = [j]) (count : count? j = some n) : Gives members (.simple n)
  | smart {d w m y : UInt32} (kind : named "kind" members = [.string "smart"])
      (counts : ∀ t : Tier, countUnder? members t.name = some ((Policy.smart d w m y).countOf t)) :
      Gives members (.smart d w m y)

theorem taggedObject {tag shape : String} {rest : Json} :
    tagged? tag (fun _ => true) (.object members) = some ⟨shape, rest⟩ ↔
      named tag members = [.string shape] ∧ rest = .object (members.filter fun m => m.1 ≠ tag) := by
  simp only [tagged?, List.all_eq_true, implies_true, if_true]
  split
  · rename_i found
    simp [found, eq_comm]
  · rename_i other
    simp only [reduceCtorEq, false_iff, not_and]
    exact fun found => absurd found (other _)

theorem optionalCountsEach {names : List String} {ns : List UInt32} :
    optionalCounts? members names = some ns ↔
      List.Forall₂ (fun name n => countUnder? members name = some n) names ns := by
  induction names generalizing ns with
  | nil => simp [optionalCounts?, eq_comm]
  | cons name names ih =>
    have first : optionalCounts? members (name :: names) = some ns ↔ ∃ n rest,
        countUnder? members name = some n ∧ optionalCounts? members names = some rest ∧
          n :: rest = ns := by
      unfold countUnder?
      rw [optionalCounts?]
      split <;> simp [Option.bind_eq_some_iff, *]
    rw [first, List.forall₂_cons_left_iff]
    simp only [ih, eq_comm]

theorem smartObject {p : Policy} : policyOf? ⟨"smart", .object members⟩ = some p ↔
    ∃ d w m y, p = .smart d w m y ∧
      ∀ t : Tier, countUnder? members t.name = some ((Policy.smart d w m y).countOf t) := by
  have tiers (d w m y : UInt32) :
      optionalCounts? members (Tier.all.map Tier.name) = some [d, w, m, y] ↔
        ∀ t : Tier, countUnder? members t.name = some ((Policy.smart d w m y).countOf t) := by
    have counts : [d, w, m, y] = Tier.all.map (Policy.smart d w m y).countOf := rfl
    rw [optionalCountsEach, counts, List.forall₂_map_left_iff, List.forall₂_map_right_iff,
      List.forall₂_same]
    exact ⟨fun each t => each t (Tier.mem_all t), fun each t _ => each t⟩
  simp only [policyOf?, tierCounts?, String.reduceEq, if_false, if_true, Option.bind_eq_bind,
    Option.bind_eq_some_iff]
  constructor
  · rintro ⟨ns, counted, policy⟩
    split at policy
    · rename_i d w m y
      exact ⟨d, w, m, y, (Option.some.inj policy).symm, (tiers d w m y).mp counted⟩
    · cases policy
  · rintro ⟨d, w, m, y, rfl, each⟩
    exact ⟨_, (tiers d w m y).mpr each, rfl⟩

theorem simpleObject {p : Policy} : policyOf? ⟨"simple", .object members⟩ = some p ↔
    ∃ j n, named "keep_count" members = [j] ∧ count? j = some n ∧ p = .simple n := by
  simp only [policyOf?, fields?, required?, String.reduceEq, if_false, if_true, Option.bind_eq_bind]
  split
  · rename_i j found
    simp only [Option.map_some, Option.bind_some, Option.map_eq_some_iff, found]
    constructor
    · rintro ⟨n, count, rfl⟩
      exact ⟨j, n, rfl, count, rfl⟩
    · rintro ⟨_, n, same, count, rfl⟩
      cases same
      exact ⟨n, count, rfl⟩
  · rename_i other
    simp only [Option.bind_none, reduceCtorEq, false_iff]
    rintro ⟨j, n, found, _⟩
    exact other j found

theorem noneObject {p : Policy} :
    policyOf? ⟨"none", .object members⟩ = some p ↔ p = .none := by
  have none : policyOf? ⟨"none", .object members⟩ = some .none := rfl
  rw [none, Option.some.injEq, eq_comm]

theorem shapeKnown {shape : String} {rest : Json} {p : Policy}
    (given : policyOf? ⟨shape, rest⟩ = some p) :
    shape = "none" ∨ shape = "simple" ∨ shape = "smart" := by
  by_contra other
  simp only [not_or] at other
  obtain ⟨notNone, notSimple, notSmart⟩ := other
  simp [policyOf?, notNone, notSimple, notSmart] at given

theorem policyGiven {p : Policy} :
    (tagged? "kind" (fun _ => true) (.object members)).bind policyOf? = some p ↔ Gives members p := by
  -- fields are looked up among the members without `kind`, which is the name of none of them
  have others {name : String} (other : name ≠ "kind") :
      named name (members.filter fun m => m.1 ≠ "kind") = named name members :=
    namedFilter (fun k => k ≠ "kind") (decide_eq_true other)
  have keepCount := others (show "keep_count" ≠ "kind" by decide)
  have tiers (t : Tier) : countUnder? (members.filter fun m => m.1 ≠ "kind") t.name =
      countUnder? members t.name := by
    rw [countUnder?, others (by cases t <;> decide), countUnder?]
  rw [Option.bind_eq_some_iff]
  constructor
  · rintro ⟨⟨shape, rest⟩, tagged, given⟩
    obtain ⟨kind, rfl⟩ := taggedObject.mp tagged
    obtain rfl | rfl | rfl := shapeKnown given
    · obtain rfl := noneObject.mp given
      exact .none kind
    · obtain ⟨j, n, only, count, rfl⟩ := simpleObject.mp given
      exact .simple kind (keepCount ▸ only) count
    · obtain ⟨d, w, m, y, rfl, counts⟩ := smartObject.mp given
      exact .smart kind fun t => tiers t ▸ counts t
  · intro gives
    cases gives with
    | none kind => exact ⟨_, taggedObject.mpr ⟨kind, rfl⟩, noneObject.mpr rfl⟩
    | simple kind only count =>
      have only' := keepCount.trans only
      exact ⟨_, taggedObject.mpr ⟨kind, rfl⟩, simpleObject.mpr ⟨_, _, only', count, rfl⟩⟩
    | smart kind counts =>
      have counts' (t : Tier) := (tiers t).trans (counts t)
      exact ⟨_, taggedObject.mpr ⟨kind, rfl⟩, smartObject.mpr ⟨_, _, _, _, rfl, counts'⟩⟩

theorem givesAgree {others : List (String × Json)} {p : Policy}
    (agree : ∀ k ∈ "kind" :: p.fields, named k others = named k members) (gives : Gives members p) :
    Gives others p := by
  have kind := agree "kind" List.mem_cons_self
  cases gives with
  | none found => exact .none (kind.trans found)
  | simple found only count =>
    have same := agree "keep_count" (by simp [Policy.fields])
    exact .simple (kind.trans found) (same.trans only) count
  | smart found counts =>
    refine .smart (kind.trans found) fun t => ?_
    have field : t.name ∈ Tier.all.map Tier.name := List.mem_map_of_mem (Tier.mem_all t)
    rw [countUnder?, agree t.name (List.mem_cons_of_mem _ field)]
    exact counts t

end Record

namespace Rotation
open Record (named Gives)
variable {t : Toml.Table} {p : Policy}

/-- The keys of the form in which a section gives the policy. -/
def formKeys (v : Toml) (p : Policy) : List String :=
  if (policyText? v).isSome then ["policy"] else "kind" :: p.fields

def keys : Toml → List String
  | .table t => t.map Prod.fst
  | _ => []

/-- The section with none but the named keys. -/
def only (names : List String) : Toml → Toml
  | .table t => .table (t.filter fun e => e.1 ∈ names)
  | v => v

theorem structuredTable : structured? (.table t) = some p ↔ Gives (Toml.recordMembers t) p :=
  Record.policyGiven

theorem structuredOnly {names : List String} (read : ∀ k ∈ "kind" :: p.fields, k ∈ names) :
    structured? (only names (.table t)) = some p ↔ structured? (.table t) = some p := by
  have kept : Toml.recordMembers (t.filter fun e => e.1 ∈ names) =
      (Toml.recordMembers t).filter fun m => m.1 ∈ names := by
    rw [Toml.recordMembersMap, Toml.recordMembersMap, List.filter_map]
    rfl
  have same : ∀ k ∈ "kind" :: p.fields,
      named k ((Toml.recordMembers t).filter fun m => m.1 ∈ names) =
        named k (Toml.recordMembers t) := fun k field =>
    Record.namedFilter (fun k => k ∈ names) (decide_eq_true (read k field))
  rw [only, structuredTable, structuredTable, kept]
  exact ⟨Record.givesAgree fun k field => (same k field).symm, Record.givesAgree same⟩

theorem getOnly {names : List String} {key : String} :
    Toml.Table.get? (t.filter fun e => e.1 ∈ names) key =
      if key ∈ names then Toml.Table.get? t key else none := by
  rw [Toml.Table.get?, List.find?_filter, Toml.Table.get?]
  by_cases named : key ∈ names
  · have found : (fun e : String × Toml => decide (e.1 ∈ names ∧ (e.1 == key) = true)) =
        fun e => e.1 == key := by
      funext e
      by_cases same : e.1 = key
      · simp [same, named]
      · simp [same]
    simp only [decide_eq_true_eq, found, if_pos named]
  · have missed (e : String × Toml) : ¬ (e.1 ∈ names ∧ e.1 = key) := by
      rintro ⟨member, rfl⟩
      exact named member
    simp [missed, named]

theorem policyTextOnly (v : Toml) (p : Policy) :
    policyText? (only (formKeys v p) v) = policyText? v := by
  cases v with
  | table t =>
    cases text : policyText? (.table t) with
    | some s =>
      have read : formKeys (.table t) p = ["policy"] := by rw [formKeys, text]; rfl
      rw [← text, read, only, policyText?, getOnly, if_pos (by simp), policyText?]
    | none =>
      have read : formKeys (.table t) p = "kind" :: p.fields := by rw [formKeys, text]; rfl
      have unread : "policy" ∉ "kind" :: p.fields := by
        cases p <;> simp [Policy.fields, Tier.all, Tier.name]
      rw [read, only, policyText?, getOnly, if_neg unread]
  | _ => rfl

theorem readText {v : Toml} {s : String} (text : policyText? v = some s) :
    read v = .ok p ↔ Policy.ofText s = .ok p := by
  simp only [read, text]
  split <;> simp [*]

theorem readRecord {v : Toml} (text : policyText? v = none) :
    read v = .ok p ↔ structured? v = some p := by
  simp only [read, text]
  split <;> simp [*]

theorem readOnly (v : Toml) (p : Policy) : read (only (formKeys v p) v) = .ok p ↔ read v = .ok p := by
  have same := policyTextOnly v p
  cases text : policyText? v with
  | some s => rw [readText text, readText (same.trans text)]
  | none =>
    rw [readRecord text, readRecord (same.trans text), formKeys, text]
    cases v with
    | table t => exact structuredOnly fun k field => field
    | _ => exact Iff.rfl

theorem understoodIff {v : Toml} : Settings.rotationOf (some v) = (p, none, []) ↔ read v = .ok p := by
  simp only [Settings.rotationOf]
  split <;> simp [*]

/-- A section is understood as a policy exactly if it is without the keys that are not in the form of
the policy, and so is every other section with these keys. No other key makes it fall back, or is told
about. -/
theorem unreadKeysDropped (v : Toml) (p : Policy) :
    let read := formKeys v p
    (Settings.rotationOf (some (only read v)) = (p, none, []) ↔
      Settings.rotationOf (some v) = (p, none, [])) ∧
    ∀ w, policyText? w = policyText? v → only read w = only read v →
      (Settings.rotationOf (some w) = (p, none, []) ↔
        Settings.rotationOf (some v) = (p, none, [])) := by
  intro read
  simp only [understoodIff]
  refine ⟨readOnly v p, fun w text agree => ?_⟩
  have same : formKeys w p = read := by rw [formKeys, text]; rfl
  rw [← readOnly w p, same, agree]
  exact readOnly v p

theorem misspelledTierDropped :
    let v := Toml.table [("daily", .integer 7), ("kind", .string "smart")]
    let w := Toml.table [("daily", .integer 7), ("kind", .string "smart"), ("weekely", .integer 4)]
    let p := Policy.smart 7 0 0 0
    policyText? w = policyText? v ∧ only (formKeys v p) w = only (formKeys v p) v ∧
      Settings.rotationOf (some w) = (p, none, []) := by
  intro v w p
  have text : policyText? w = policyText? v := rfl
  have agree : only (formKeys v p) w = only (formKeys v p) v := rfl
  exact ⟨text, agree, ((unreadKeysDropped v p).2 w text agree).mpr rfl⟩

theorem understoodWithUnread : ¬ ∀ (v : Toml) (p : Policy),
    Settings.rotationOf (some v) = (p, none, []) → p ≠ .none → ∀ k ∈ keys v, k ∈ formKeys v p := by
  intro every
  let v := Toml.table [("daily", .integer 7), ("kind", .string "smart"), ("weekely", .integer 4)]
  have read : "weekely" ∈ formKeys v (.smart 7 0 0 0) :=
    every v (.smart 7 0 0 0) rfl (by decide) "weekely" (by decide)
  exact absurd read (by decide)

end Rotation
end BackupRotation
