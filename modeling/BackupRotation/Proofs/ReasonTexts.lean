import BackupRotation.Measure
import BackupRotation.Proofs.Numerals
import BackupRotation.Text.Split
/-! Reasons read back from their text. A blank stands between two reasons and a `#` before a number, and
neither stands anywhere else, so no two lists of reasons have one text. -/
namespace BackupRotation

namespace Measure
open Text

def readReason? (cs : List Char) : Option Reason :=
  match splitFirst? '#' cs with
  | none => if cs = "keep-all".toList then some .keepAll else none
  | some (label, number) => do
    let n ← natural? number
    if label = "newest".toList then some (.recent n)
    else
      let t ← Tier.ofName? label
      some (.slot t n)

def readReasons? (cs : List Char) : Option (List Reason) :=
  if cs = [] then some [] else (splitAll ' ' cs).mapM readReason?

theorem tierFree (t : Tier) : '#' ∉ t.name.toList ∧ ' ' ∉ t.name.toList ∧ t.name.toList ≠ "newest".toList := by
  cases t <;> decide

theorem readReasonText (r : Reason) : readReason? (reasonText r) = some r := by
  cases r with
  | keepAll => decide +kernel
  | recent rank =>
    have newest : '#' ∉ "newest".toList := by decide
    have cut : splitFirst? '#' (reasonText (.recent rank)) = some ("newest".toList, digits rank) :=
      splitFirst?_append (digits rank) newest
    simp only [readReason?, cut, natural?_digits, Option.bind_eq_bind, Option.bind_some, if_true]
  | slot t index =>
    obtain ⟨label, _, other⟩ := tierFree t
    have cut : splitFirst? '#' (reasonText (.slot t index)) = some (t.name.toList, digits index) :=
      splitFirst?_append (digits index) label
    simp only [readReason?, cut, natural?_digits, if_neg other, Tier.ofName?_name, Option.bind_eq_bind,
      Option.bind_some]

theorem reasonFree (r : Reason) : ' ' ∉ reasonText r := by
  cases r with
  | keepAll => decide +kernel
  | recent rank =>
    have newest : ' ' ∉ "newest#".toList := by decide
    have number : ' ' ∉ digits rank := digitsFree rfl (digitsAll rank)
    exact List.not_mem_append newest number
  | slot t index =>
    have number : ' ' ∉ digits index := digitsFree rfl (digitsAll index)
    exact List.not_mem_append (tierFree t).2.1 (List.not_mem_cons_of_ne_of_not_mem (by decide) number)

theorem reasonsJoined (rs : List Reason) : reasonsText rs = [' '].intercalate (rs.map reasonText) := by
  induction rs with
  | nil => rfl
  | cons r rs ih =>
    cases rs with
    | nil => simp [reasonsText]
    | cons q rs =>
      rw [reasonsText, ih]
      · simp [List.intercalate]
      · simp

theorem reasonFilled (r : Reason) : reasonText r ≠ [] := by
  intro none
  have read := readReasonText r
  rw [none] at read
  exact absurd read (by simp [readReason?, splitFirst?])

theorem reasonsFilled {rs : List Reason} (some : rs ≠ []) : reasonsText rs ≠ [] := by
  cases rs with
  | nil => exact absurd rfl some
  | cons r rs =>
    cases rs with
    | nil => exact reasonFilled r
    | cons q rs => simp [reasonsText]

theorem readReasonsText (rs : List Reason) : readReasons? (reasonsText rs) = some rs := by
  rcases eq_or_ne rs [] with rfl | some
  · rfl
  · have free : ∀ part ∈ rs.map reasonText, ' ' ∉ part := List.forall_mem_map.mpr fun r _ => reasonFree r
    have filled : rs.map reasonText ≠ [] := by simpa using some
    have each : readReason? ∘ reasonText = pure := funext readReasonText
    rw [readReasons?, if_neg (reasonsFilled some), reasonsJoined, splitAll_intercalate filled free]
    rw [List.mapM_map, each]
    simpa using List.mapM_pure (m := Option) (l := rs) (f := id)

theorem reasonsToldApart (rs qs : List Reason) : reasonsText rs = reasonsText qs ↔ rs = qs := by
  refine ⟨fun same => ?_, congrArg reasonsText⟩
  have read := readReasonsText rs
  rw [same, readReasonsText qs] at read
  exact (Option.some.inj read).symm

end Measure
end BackupRotation
