import BackupRotation.Proofs.ByteOrder
import BackupRotation.Proofs.NameParts
/-! Stamps in the order of time. A later date or time of day is greater in the first of its parts that
differs, and every part is written in a fixed width; so of two names that differ in their stamps alone
the earlier one comes first. -/
namespace BackupRotation

/-- Of two triples that are compared part by part the first is less. -/
def PartsBefore {α : Type} [LT α] (a : α) (b c : Nat) (a' : α) (b' c' : Nat) : Prop :=
  a < a' ∨ a = a' ∧ (b < b' ∨ b = b' ∧ c < c')

namespace Text
variable {as bs cs ds : List Char} {width : Nat}

theorem valueCons (c : Char) (cs : List Char) :
    valueOf (c :: cs) = 10 ^ cs.length * (c.toNat - 48) + valueOf cs := by
  have first : Nat.ofDigitChars 10 (c :: cs) 0 = Nat.ofDigitChars 10 cs (c.toNat - 48) := by
    simp [Nat.ofDigitChars_cons]
  rw [valueOf, first, Nat.ofDigitChars_eq_ofDigitChars_zero, valueOf]

theorem digitsBefore (allA : ∀ c ∈ as, isDigit c = true) (allB : ∀ c ∈ bs, isDigit c = true)
    (even : as.length = bs.length) (less : valueOf as < valueOf bs) : as ++ cs < bs ++ ds := by
  induction as generalizing bs with
  | nil =>
    rw [List.length_eq_zero_iff.mp even.symm] at less
    exact absurd less (Nat.lt_irrefl _)
  | cons a as ih =>
    cases bs with
    | nil => cases even
    | cons b bs =>
      obtain ⟨digitA, restA⟩ := List.forall_mem_cons.mp allA
      obtain ⟨digitB, restB⟩ := List.forall_mem_cons.mp allB
      have even' : as.length = bs.length := Nat.succ.inj even
      have codeA := digitCode digitA
      have codeB := digitCode digitB
      have belowB := valueBelow restB
      rw [valueCons, valueCons, even'] at less
      rw [List.cons_append, List.cons_append, List.cons_lt_cons_iff]
      rcases Nat.lt_trichotomy a.toNat b.toNat with before | same | after
      · exact .inl (UInt32.lt_iff_toNat_lt.mpr before)
      · rw [same] at less
        exact .inr ⟨Char.toNat_inj.mp same, ih restA restB even' (by omega)⟩
      · -- what is behind a greater digit cannot make up for it
        have step : 10 ^ bs.length * (b.toNat - 48 + 1) ≤ 10 ^ bs.length * (a.toNat - 48) :=
          Nat.mul_le_mul_left _ (by omega)
        rw [Nat.mul_add] at step
        omega

theorem paddedBefore {m n : Nat} (wide : 0 < width) (below : n < Nat.pow 10 width) (less : m < n) :
    padded width m ++ cs < padded width n ++ ds := by
  refine digitsBefore (paddedAll width m) (paddedAll width n) ?_ ?_
  · rw [paddedLength wide below, paddedLength wide (Nat.lt_trans less below)]
  · rwa [valueOf_padded, valueOf_padded]

theorem partsBefore {a b c a' b' c' : Nat} (wide : 0 < width) (ha : a' < Nat.pow 10 width) (hb : b' < 100)
    (hc : c' < 100) (before : PartsBefore a b c a' b' c') (cs ds : List Char) :
    padded width a ++ padded 2 b ++ padded 2 c ++ cs < padded width a' ++ padded 2 b' ++ padded 2 c' ++ ds := by
  simp only [List.append_assoc]
  rcases before with first | ⟨rfl, second | ⟨rfl, third⟩⟩
  · exact paddedBefore wide ha first
  · exact List.append_left_lt (paddedBefore (by decide) hb second)
  · exact List.append_left_lt (List.append_left_lt (paddedBefore (by decide) hc third))

end Text

namespace Date
variable {d e : Date}

def Before (d e : Date) : Prop := PartsBefore d.year d.month d.day e.year e.month e.day

theorem beforeOrNot (d e : Date) : d.Before e ∨ d = e ∨ e.Before d := by
  cases d
  cases e
  simp only [Before, PartsBefore, mk.injEq]
  omega

/-- The days up to one of a month are fewer than those before a later month. -/
theorem takeBefore {lengths : List Nat} {i j k : Nat} (below : k < lengths.getD i 0) (later : i < j) :
    (lengths.take i).foldr (· + ·) 0 + k < (lengths.take j).foldr (· + ·) 0 := by
  have below' : k < (lengths.take j).getD i 0 := by
    rwa [List.getD_eq_getElem?_getD, List.getElem?_take_of_lt later, ← List.getD_eq_getElem?_getD]
  have less := takeBelow below'
  rwa [List.take_take, Nat.min_eq_left (Nat.le_of_lt later)] at less

theorem toDaysRises (hd : d.Valid) (he : e.Valid) (before : d.Before e) : d.toDays < e.toDays := by
  have within := dayBelow hd
  obtain ⟨monthD, dayD, insideD⟩ := hd
  obtain ⟨monthE, dayE, _⟩ := he
  unfold toDays
  rcases before with years | ⟨years, months | ⟨months, days⟩⟩
  · have start := yearsRise (y := d.year + 1) (z := e.year) years
    rw [yearLength] at start
    have room : ((daysBeforeMonth (isLeap d.year) d.month + (d.day - 1) : Nat) : Int) <
        if isLeap d.year then 366 else 365 := by exact_mod_cast within
    omega
  · have inside : d.day - 1 < (monthLengths (isLeap d.year)).getD (d.month - 1) 0 := by omega
    have start := takeBefore (j := e.month - 1) inside (by omega)
    rw [years] at start ⊢
    unfold daysBeforeMonth
    omega
  · rw [years, months]
    omega

theorem beforeOfDays (hd : d.Valid) (he : e.Valid) (less : d.toDays < e.toDays) : d.Before e := by
  rcases beforeOrNot d e with before | rfl | after
  · exact before
  · exact absurd less (Int.lt_irrefl _)
  · exact absurd (toDaysRises he hd after) (Int.lt_asymm less)

end Date

namespace Instant
open Text
variable {s t : Instant}

/-- A point in time that a stamp says all of: a whole second of a year in four digits. -/
def Stampable (t : Instant) : Prop :=
  t.WholeSecond ∧ 0 ≤ t.civil.date.year ∧ t.civil.date.year ≤ 9999

theorem dateBefore (less : s.seconds / 86400 < t.seconds / 86400) : s.civil.date.Before t.civil.date := by
  obtain ⟨dateS, _⟩ := civilValid s
  obtain ⟨dateT, _⟩ := civilValid t
  refine Date.beforeOfDays dateS dateT ?_
  simpa only [civil, Date.toDaysOfDays] using less

theorem timeBefore (whole : t.WholeSecond) (less : s < t)
    (same : s.seconds / 86400 = t.seconds / 86400) :
    PartsBefore s.civil.hour s.civil.minute s.civil.second t.civil.hour t.civil.minute t.civil.second := by
  obtain ⟨_, _, _, leapS⟩ := s.admissible
  obtain ⟨_, _, _, leapT⟩ := t.admissible
  change Before s t at less
  unfold Before at less
  unfold WholeSecond at whole
  simp only [PartsBefore, civil, secondOfDay]
  split_ifs <;> omega

theorem stampDateYear (year : 0 ≤ t.civil.date.year ∧ t.civil.date.year ≤ 9999) : t.stampDate =
    padded 4 t.civil.date.year.toNat ++ padded 2 t.civil.date.month ++ padded 2 t.civil.date.day := by
  rw [stampDate, yearText, if_pos year]

theorem stampRises (hs : s.Stampable) (ht : t.Stampable) (less : s < t) (cs ds : List Char) :
    s.stamp ++ cs < t.stamp ++ ds := by
  obtain ⟨date, _, _, hour, minute, second, _⟩ := civilValid t
  obtain ⟨month, day⟩ := Date.validMonth date
  rw [stampCut, stampCut, List.append_assoc, List.append_assoc]
  rcases Int.lt_trichotomy (s.seconds / 86400) (t.seconds / 86400) with days | same | back
  · have before := dateBefore days
    have years : PartsBefore s.civil.date.year.toNat s.civil.date.month s.civil.date.day
        t.civil.date.year.toNat t.civil.date.month t.civil.date.day := by
      obtain ⟨_, firstS, _⟩ := hs
      obtain ⟨_, firstT, _⟩ := ht
      unfold Date.Before PartsBefore at before
      unfold PartsBefore
      omega
    obtain ⟨_, firstT, lastT⟩ := ht
    rw [stampDateYear hs.2, stampDateYear ⟨firstT, lastT⟩]
    exact partsBefore (by decide) (by simp; omega) (by omega) (by omega) years _ _
  · have dates : s.stampDate = t.stampDate := by simp only [stampDate, civil, same]
    have before := timeBefore ht.1 less same
    rw [dates]
    refine List.append_left_lt (List.cons_lt_cons_iff.mpr (.inr ⟨rfl, ?_⟩))
    exact partsBefore (by decide) (by simp; omega) (by omega) (by omega) before _ _
  · change Before s t at less
    unfold Before at less
    omega

end Instant

namespace BackupName
open Instant
variable {m n : BackupName}

theorem fileNameRises (engine : m.engine = n.engine) (database : m.database = n.database)
    (extension : m.extension = n.extension) (hm : m.created.Stampable) (hn : n.created.Stampable)
    (less : m.created < n.created) : m.fileName < n.fileName := by
  rw [String.lt_iff_toList_lt, fileName, fileName, String.toList_ofList, String.toList_ofList, written,
    written, engine, database, extension]
  simp only [List.append_assoc, List.cons_append]
  refine List.append_left_lt (List.append_left_lt (List.cons_lt_cons_iff.mpr (.inr ⟨rfl, ?_⟩)))
  refine List.append_left_lt (List.cons_lt_cons_iff.mpr (.inr ⟨rfl, ?_⟩))
  exact stampRises hm hn less _ _

/-- File names that differ in the time of their backups alone are in the order of their bytes exactly as
the backups are in time, and the same exactly for the same time. -/
theorem namesByTime (engine : m.engine = n.engine) (database : m.database = n.database)
    (extension : m.extension = n.extension) (hm : m.created.Stampable) (hn : n.created.Stampable) :
    ((Octets.text m.fileName).toBytes < (Octets.text n.fileName).toBytes ↔ m.created < n.created) ∧
      (m.fileName = n.fileName ↔ m.created = n.created) := by
  rw [Octets.bytesBefore]
  by_cases earlier : m.created < n.created
  · have before := fileNameRises engine database extension hm hn earlier
    have apart : m.created ≠ n.created := fun same => Instant.lt_irrefl _ (same ▸ earlier)
    exact ⟨iff_of_true before earlier, iff_of_false (ne_of_lt before) apart⟩
  by_cases later : n.created < m.created
  · have behind := fileNameRises engine.symm database.symm extension.symm hn hm later
    have apart : m.created ≠ n.created := fun same => Instant.lt_irrefl _ (same ▸ later)
    exact ⟨iff_of_false (lt_asymm behind) earlier, iff_of_false (ne_of_gt behind) apart⟩
  · have same : m.created = n.created := Instant.le_antisymm later earlier
    obtain rfl : m = n := by
      cases m
      cases n
      simp_all only
    exact ⟨iff_of_false (lt_irrefl _) earlier, iff_of_true rfl rfl⟩

theorem namesByTimeLeap :
    let leap : Instant := ⟨1483228799, 1000000000, by decide⟩
    let midnight : Instant := ⟨1483228800, 0, by decide⟩
    let m : BackupName := ⟨"mysql", "shop_eu", leap, "sql.gz"⟩
    let n : BackupName := ⟨"mysql", "shop_eu", midnight, "sql.gz"⟩
    leap.Stampable ∧ midnight.Stampable ∧ m.fileName = "backup_mysql_shop_eu_20161231_235960.sql.gz" ∧
      (Octets.text m.fileName).toBytes < (Octets.text n.fileName).toBytes := by
  intro leap midnight m n
  have first : leap.Stampable := ⟨.inr rfl, by decide, by decide⟩
  have second : midnight.Stampable := ⟨.inl rfl, by decide, by decide⟩
  have order := (namesByTime (m := m) (n := n) rfl rfl rfl first second).1
  exact ⟨first, second, by decide +kernel, order.mpr (.inl (by decide))⟩

end BackupName
end BackupRotation
