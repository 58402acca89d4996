import BackupRotation.World
/-! The courses that a program can take in a world that may refuse to remove files, each with the paths
that the program asks to have removed. Where nothing is refused the course is the run. A program that
asks for no removal has no other course, and one that only reads leaves nothing but events. -/
namespace BackupRotation

namespace Request

def removed? : Request → Option String
  | removeFile path => some path
  | _ => none

def spares (r : Request) : Bool := r.removed?.isNone

/-- A request that changes no file and says nothing to the user. -/
def reads : Request → Bool
  | readText _ => true
  | entries _ => true
  | status _ => true
  | now => true
  | tell _ => true
  | _ => false

theorem readsSpares {r : Request} (reading : r.reads = true) : r.spares = true := by
  cases r with
  | removeFile path => cases reading
  | _ => rfl

end Request

namespace Program

inductive Course {α : Type} : Program α → World → List String → α → World → Prop where
  | done (a : α) (w : World) : Course (done a) w [] a w
  | answered {r : Request} {next : r.Answer → Program α} {w after : World} {tried : List String} {a : α}
      (rest : Course (next (w.answer r).1) (w.answer r).2 tried a after) :
      Course (ask r next) w (r.removed?.toList ++ tried) a after
  | refused {path : String} {next : (Request.removeFile path).Answer → Program α} {w after : World}
      {tried : List String} {a : α} (e : FileError) (rest : Course (next (.error e)) w tried a after) :
      Course (ask (.removeFile path) next) w (path :: tried) a after

/-- Every request of the program is an allowed one, whatever was answered before. -/
def Asks {α : Type} (allowed : Request → Bool) : Program α → Prop
  | done _ => True
  | ask r next => allowed r = true ∧ ∀ answer, (next answer).Asks allowed

section Requests
variable {α β : Type} {p : Program α} {f : α → Program β} {allowed : Request → Bool}

theorem asksPure (a : α) : (pure a : Program α).Asks allowed := trivial

theorem asksRequest {r : Request} (fine : allowed r = true) : (request r).Asks allowed :=
  ⟨fine, fun _ => trivial⟩

theorem asksBind (first : p.Asks allowed) (rest : ∀ a, (f a).Asks allowed) :
    (p >>= f).Asks allowed := by
  induction p with
  | done a => exact rest a
  | ask r next ih => exact ⟨first.1, fun answer => ih answer (first.2 answer)⟩

theorem readsTellAll (es : List Event) : (tellAll es).Asks Request.reads := by
  induction es with
  | nil => exact asksPure ()
  | cons e es ih => exact asksBind (asksRequest rfl) fun _ => ih

theorem asksWeaken {other : Request → Bool} (weaker : ∀ {r}, allowed r = true → other r = true)
    (asks : p.Asks allowed) : p.Asks other := by
  induction p with
  | done a => trivial
  | ask r next ih => exact ⟨weaker asks.1, fun answer => ih answer (asks.2 answer)⟩

theorem readsSpare (reads : p.Asks Request.reads) : p.Asks Request.spares :=
  asksWeaken Request.readsSpares reads

end Requests

section Courses
variable {α β : Type} {p : Program α} {f : α → Program β} {w after : World} {tried : List String}
  {a : α} {b : β}

theorem courseRun (p : Program α) (w : World) : ∃ tried, p.Course w tried (p.run w).1 (p.run w).2 := by
  induction p generalizing w with
  | done a => exact ⟨[], .done a w⟩
  | ask r next ih =>
    obtain ⟨tried, rest⟩ := ih (w.answer r).1 (w.answer r).2
    exact ⟨_, .answered rest⟩

theorem courseDone {c : α} (course : (pure a : Program α).Course w tried c after) :
    tried = [] ∧ c = a ∧ after = w := by
  cases course
  exact ⟨rfl, rfl, rfl⟩

theorem courseBind (course : (p >>= f).Course w tried b after) :
    ∃ first rest a between, tried = first ++ rest ∧ p.Course w first a between ∧
      (f a).Course between rest b after := by
  induction p generalizing w tried with
  | done a => exact ⟨[], tried, a, w, rfl, .done a w, course⟩
  | ask r next ih =>
    rw [bind_ask] at course
    cases course with
    | answered rest =>
      obtain ⟨first, last, a, between, rfl, left, right⟩ := ih _ rest
      exact ⟨_, last, a, between, (List.append_assoc _ _ _).symm, .answered left, right⟩
    | refused e rest =>
      obtain ⟨first, last, a, between, rfl, left, right⟩ := ih _ rest
      exact ⟨_, last, a, between, rfl, .refused e left, right⟩

theorem courseSpares (spares : p.Asks Request.spares) (course : p.Course w tried a after) :
    tried = [] ∧ p.run w = (a, after) := by
  induction course with
  | done a w => exact ⟨rfl, rfl⟩
  | answered rest ih =>
    obtain ⟨nothing, ran⟩ := ih (spares.2 _)
    exact ⟨by rw [Option.isNone_iff_eq_none.mp spares.1, nothing]; rfl, ran⟩
  | refused e rest ih => cases spares.1

theorem courseThen (spares : p.Asks Request.spares) (course : (p >>= f).Course w tried b after) :
    (f (p.run w).1).Course (p.run w).2 tried b after := by
  obtain ⟨first, rest, a, between, rfl, left, right⟩ := courseBind course
  obtain ⟨rfl, ran⟩ := courseSpares spares left
  rw [ran]
  exact right

theorem courseRemove {path : String} {answer : Except FileError Unit}
    (course : (removeFile path).Course w tried answer after) :
    tried = [path] ∧
      ((answer = .ok () ∧ ∃ v, w.volume.removeFile w.here path = .ok v ∧
        after = { w with volume := v }) ∨
      ((∃ e, answer = .error e) ∧ after = w)) := by
  cases course with
  | answered rest =>
    cases rest
    refine ⟨rfl, ?_⟩
    cases removed : w.volume.removeFile w.here path with
    | ok v => exact .inl (by simp [World.answer, World.change, removed])
    | error e => exact .inr (by simp [World.answer, World.change, removed])
  | refused e rest =>
    cases rest
    exact ⟨rfl, .inr ⟨⟨e, rfl⟩, rfl⟩⟩

theorem answerReads {r : Request} (reads : r.reads = true) :
    ∃ es, (w.answer r).2 = { w with events := w.events ++ es } := by
  cases r with
  | tell e => exact ⟨[e], rfl⟩
  | readText path => exact ⟨[], by simp [World.answer]⟩
  | entries path => exact ⟨[], by simp [World.answer]⟩
  | status path => exact ⟨[], by simp [World.answer]⟩
  | now => exact ⟨[], by simp [World.answer]⟩
  | _ => cases reads

theorem readsLeave (reads : p.Asks Request.reads) :
    ∃ es, (p.run w).2 = { w with events := w.events ++ es } := by
  induction p generalizing w with
  | done a => exact ⟨[], by simp [run]⟩
  | ask r next ih =>
    obtain ⟨es, answered⟩ := answerReads (w := w) reads.1
    obtain ⟨fs, ended⟩ := ih (w.answer r).1 (reads.2 _) (w := (w.answer r).2)
    refine ⟨es ++ fs, ?_⟩
    rw [run, ended, answered, List.append_assoc]

end Courses
end Program
end BackupRotation
