import BackupRotation.BackupName
import BackupRotation.Proofs.Stamps
/-! File names of the naming scheme in their parts. A name has one set of parts at most and is read by
them, so the names that are read back from their file names can be told by their engine, their database
and their point in time. -/
namespace BackupRotation

namespace BackupName
open Instant (dateDigitsIff dateFree dateLong dateWritten ofStamp? stampCut stampDate stampRead stampTime timeDigitsIff
  timeFree timeWritten wholeStamp)
open Text

section Width
variable {cs : List Char}

theorem lengthWithin (cs : List Char) : cs.length ≤ width cs := by
  induction cs with
  | nil => rfl
  | cons c cs ih =>
    have positive := c.utf8Size_pos
    simp only [width, List.length_cons, List.foldr_cons] at ih ⊢
    omega

theorem widthDigits (digits : ∀ c ∈ cs, isDigit c = true) : width cs = cs.length := by
  induction cs with
  | nil => rfl
  | cons c cs ih =>
    obtain ⟨digit, digits⟩ := List.forall_mem_cons.mp digits
    have code : c.toNat ≤ 127 := by
      have code := digitCode digit
      omega
    have one : c.utf8Size = 1 := Char.utf8Size_eq_one_iff.mpr (UInt32.le_iff_toNat_le.mpr code)
    have rest := ih digits
    simp only [width, List.length_cons, List.foldr_cons] at rest ⊢
    omega

end Width

/-- The parts that the scheme cuts a name into. The ending is the extension behind a dot; an empty
extension can go without. -/
structure Parts where
  engine : List Char
  database : List Char
  date : List Char
  time : List Char
  ending : List Char
  extension : List Char
  owner : engine ≠ [] ∧ '_' ∉ engine ∧ '.' ∉ engine
  owned : database ≠ [] ∧ '.' ∉ database
  dated : '_' ∉ date ∧ '.' ∉ date
  timed : '_' ∉ time ∧ '.' ∉ time
  ended : ending = '.' :: extension ∨ ending = [] ∧ extension = []

namespace Parts

def rest (p : Parts) : List Char := p.engine ++ '_' :: p.database ++ '_' :: p.date ++ '_' :: p.time

def name (p : Parts) : List Char := start ++ p.rest ++ p.ending

section Read
variable (p : Parts)

theorem stemFree : '.' ∉ start ++ p.rest := by
  have first : '.' ∉ start := by decide
  simp [rest, first, p.owner, p.owned, p.dated, p.timed]

theorem nameCut : (splitFirst? '.' p.name).getD (p.name, []) = (start ++ p.rest, p.extension) := by
  rcases p.ended with dotted | ⟨bare, none⟩
  · rw [name, dotted, splitFirst?_append _ p.stemFree]
    rfl
  · rw [name, bare, none, List.append_nil, splitFirst?_none p.stemFree]
    rfl

theorem restCut : splitTail? p.rest = some (p.engine ++ '_' :: p.database, p.date, p.time) := by
  simp only [splitTail?, rest, splitLast?_append _ p.timed.1, splitLast?_append _ p.dated.1,
    Option.bind_eq_bind, Option.bind_some]

theorem ownerCut : splitFirst? '_' (p.engine ++ '_' :: p.database) = some (p.engine, p.database) :=
  splitFirst?_append _ p.owner.2.1

theorem readName : read? p.name =
    if width p.date = 8 ∧ width p.time = 6 then
      (ofStamp? (p.date ++ '_' :: p.time)).map fun created =>
        ⟨String.ofList p.engine, String.ofList p.database, created, String.ofList p.extension⟩
    else none := by
  simp only [read?, nameCut, afterStart?_append, restCut, ownerCut, Option.bind_eq_bind, Option.bind_some,
    p.owner.1, p.owned.1, ne_eq, not_false_eq_true, and_true, Option.map_eq_bind]
  rfl

theorem readNameIff {n : BackupName} : read? p.name = some n ↔
    (width p.date = 8 ∧ width p.time = 6) ∧ ofStamp? (p.date ++ '_' :: p.time) = some n.created ∧
      n.engine.toList = p.engine ∧ n.database.toList = p.database ∧ n.extension.toList = p.extension := by
  rw [readName, Option.ite_none_right_eq_some, Option.map_eq_some_iff]
  refine and_congr_right fun _ => ?_
  constructor
  · rintro ⟨created, read, rfl⟩
    simp [read]
  · rintro ⟨read, engine, database, extension⟩
    exact ⟨n.created, read, by rw [← engine, ← database, ← extension]; simp⟩

end Read

theorem nameInjective {p q : Parts} (same : p.name = q.name) : p = q := by
  have cut := p.nameCut
  rw [same, q.nameCut] at cut
  obtain ⟨stem, extension⟩ := Prod.mk.inj cut
  have ending : p.ending = q.ending := by
    rw [name, name, stem] at same
    exact List.append_cancel_left same
  have tail := p.restCut
  rw [← List.append_cancel_left stem, q.restCut] at tail
  simp only [Option.some.injEq, Prod.mk.injEq] at tail
  obtain ⟨owner, date, time⟩ := tail
  have owners := p.ownerCut
  rw [← owner, q.ownerCut] at owners
  simp only [Option.some.injEq, Prod.mk.injEq] at owners
  cases p
  cases q
  simp_all

end Parts

section Cut
variable {name owner date time : List Char} {n : BackupName}

theorem dotCut (name : List Char) : ∃ stem extension ending,
    (splitFirst? '.' name).getD (name, []) = (stem, extension) ∧ name = stem ++ ending ∧ '.' ∉ stem ∧
      (ending = '.' :: extension ∨ ending = [] ∧ extension = []) := by
  cases cut : splitFirst? '.' name with
  | none => exact ⟨name, [], [], rfl, by simp, splitFirst?_free cut, .inr ⟨rfl, rfl⟩⟩
  | some parts =>
    obtain ⟨stem, extension⟩ := parts
    obtain ⟨whole, free⟩ := splitFirst?_some cut
    exact ⟨stem, extension, '.' :: extension, rfl, whole, free, .inl rfl⟩

theorem tailCut {cs : List Char} (cut : splitTail? cs = some (owner, date, time)) :
    cs = owner ++ '_' :: date ++ '_' :: time ∧ '_' ∉ date ∧ '_' ∉ time := by
  simp only [splitTail?, Option.bind_eq_bind, Option.bind_eq_some_iff, Prod.exists, Option.some.injEq,
    Prod.mk.injEq] at cut
  obtain ⟨rest, _, timed, _, _, dated, rfl, rfl, rfl⟩ := cut
  obtain ⟨rfl, timeFree⟩ := splitLast?_some timed
  obtain ⟨rfl, dateFree⟩ := splitLast?_some dated
  exact ⟨rfl, dateFree, timeFree⟩

theorem readParts (read : read? name = some n) : ∃ p : Parts, p.name = name := by
  obtain ⟨stem, extension, ending, cut, whole, free, ended⟩ := dotCut name
  simp only [read?, cut, Option.bind_eq_bind, Option.bind_eq_some_iff, Prod.exists] at read
  obtain ⟨rest, started, owner, date, time, tail, engine, database, owners, read⟩ := read
  obtain ⟨conditions, _⟩ := Option.ite_none_right_eq_some.mp read
  obtain ⟨_, _, someEngine, someDatabase⟩ := conditions
  obtain rfl := afterStart?_some started
  obtain ⟨rfl, dateFree, timeFree⟩ := tailCut tail
  obtain ⟨rfl, engineFree⟩ := splitFirst?_some owners
  simp only [List.mem_append, List.mem_cons, not_or] at free
  obtain ⟨_, ⟨⟨⟨engineDot, _, databaseDot⟩, _, dateDot⟩, _, timeDot⟩⟩ := free
  exact ⟨⟨engine, database, date, time, ending, extension, ⟨someEngine, engineFree, engineDot⟩,
    ⟨someDatabase, databaseDot⟩, ⟨dateFree, dateDot⟩, ⟨timeFree, timeDot⟩, ended⟩, whole.symm⟩

end Cut

structure Owned (n : BackupName) : Prop where
  engine : n.engine ≠ "" ∧ '_' ∉ n.engine.toList ∧ '.' ∉ n.engine.toList
  database : n.database ≠ "" ∧ '.' ∉ n.database.toList

/-- The names whose file names say all of them. -/
structure Representable (n : BackupName) : Prop extends Owned n where
  whole : n.created.WholeSecond
  year : 0 ≤ n.created.civil.date.year ∧ n.created.civil.date.year ≤ 9999

section Written
variable {n : BackupName}

theorem writtenParts (owned : n.Owned) :
    ∃ p : Parts, p.name = n.written ∧ p.date = stampDate n.created ∧ p.time = stampTime n.created ∧
      p.engine = n.engine.toList ∧ p.database = n.database.toList ∧ p.extension = n.extension.toList := by
  let p : Parts := {
    engine := n.engine.toList
    database := n.database.toList
    date := stampDate n.created
    time := stampTime n.created
    ending := if n.extension.toList = [] then [] else '.' :: n.extension.toList
    extension := n.extension.toList
    owner := ⟨by simpa using owned.engine.1, owned.engine.2⟩
    owned := ⟨by simpa using owned.database.1, owned.database.2⟩
    dated := ⟨dateFree rfl (by decide) (by decide), dateFree rfl (by decide) (by decide)⟩
    timed := ⟨timeFree rfl, timeFree rfl⟩
    ended := by
      split
      · rename_i none
        exact .inr ⟨rfl, none⟩
      · exact .inl rfl }
  refine ⟨p, ?_, rfl, rfl, rfl, rfl, rfl⟩
  simp [p, Parts.name, Parts.rest, written, Instant.stampCut]

theorem readRepresentable (representable : n.Representable) : ofFileName? n.fileName = some n := by
  obtain ⟨owned, whole, first, last⟩ := representable
  obtain ⟨p, same, date, time, engine, database, extension⟩ := writtenParts owned
  obtain ⟨_, longDate, allDate⟩ := dateDigitsIff.mp (dateWritten first last)
  obtain ⟨_, longTime, allTime⟩ := timeDigitsIff.mp (timeWritten n.created)
  have wideDate : width p.date = 8 := by rw [date, widthDigits allDate, longDate]
  have wideTime : width p.time = 6 := by rw [time, widthDigits allTime, longTime]
  have read : ofStamp? (p.date ++ '_' :: p.time) = some n.created := by
    rw [date, time, ← stampCut]
    exact stampRead whole first last
  rw [ofFileName?, fileName, String.toList_ofList, ← same]
  exact p.readNameIff.mpr ⟨⟨wideDate, wideTime⟩, read, engine.symm, database.symm, extension.symm⟩

theorem ownedRead {name : List Char} (read : read? name = some n) : n.Owned ∧ n.created.WholeSecond := by
  obtain ⟨p, rfl⟩ := readParts read
  obtain ⟨_, stamp, engine, database, _⟩ := p.readNameIff.mp read
  refine ⟨⟨?_, ?_⟩, wholeStamp stamp⟩
  · simpa [← engine] using p.owner
  · simpa [← database] using p.owned

theorem yearWritten {m : BackupName} (owned : n.Owned) (read : ofFileName? n.fileName = some m) :
    0 ≤ n.created.civil.date.year ∧ n.created.civil.date.year ≤ 9999 := by
  rw [ofFileName?, fileName, String.toList_ofList] at read
  obtain ⟨p, same, date, _⟩ := writtenParts owned
  rw [← same] at read
  have wide := (p.readNameIff.mp read).1.1
  -- only a year in four digits leaves room for the rest of the date
  by_contra outside
  have long := dateLong outside
  have within := lengthWithin (stampDate n.created)
  rw [date] at wide
  omega

theorem representableRead (read : ofFileName? n.fileName = some n) : n.Representable := by
  obtain ⟨owned, whole⟩ := ownedRead read
  exact ⟨owned, whole, yearWritten owned read⟩

end Written

theorem readBackIff (n : BackupName) : ofFileName? n.fileName = some n ↔ n.Representable :=
  ⟨representableRead, readRepresentable⟩

end BackupName
end BackupRotation
