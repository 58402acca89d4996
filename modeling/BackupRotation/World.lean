import BackupRotation.Program
/-! A world in which programs run: files, the directory that relative paths start in, a clock that
stands still, and a terminal. -/
namespace BackupRotation

structure World where
  volume : Volume
  here : Location
  clock : Instant
  input : List Char
  output : String
  events : List Event

namespace World

def change (w : World) : Except FileError Volume → Except FileError Unit × World
  | .ok v => (.ok (), { w with volume := v })
  | .error e => (.error e, w)

def cutLine : List Char → List Char × List Char
  | [] => ([], [])
  | c :: cs =>
    if c = '\n' then (['\n'], cs)
    else
      let (l, rest) := cutLine cs
      (c :: l, rest)

def answer (w : World) : (r : Request) → r.Answer × World
  | .readText path => (w.volume.readText w.here path, w)
  | .entries path => (w.volume.entries w.here path, w)
  | .status path => (w.volume.status w.here path, w)
  | .removeFile path => w.change (w.volume.removeFile w.here path)
  | .createDirectory path => w.change (w.volume.createDirectory w.here path)
  | .writeText path text => w.change (w.volume.writeText w.here w.clock path text)
  | .rename source target => w.change (w.volume.rename w.here source target)
  | .print text => ((), { w with output := w.output ++ text })
  | .readLine =>
    let (l, rest) := cutLine w.input
    (.ok (String.ofList l), { w with input := rest })
  | .now => (w.clock, w)
  | .tell e => ((), { w with events := w.events ++ [e] })

end World

def Program.run {α : Type} : Program α → World → α × World
  | done a, w => (a, w)
  | ask r next, w =>
    let (answer, w) := w.answer r
    (next answer).run w

namespace Program

theorem run_pure {α : Type} (a : α) (w : World) : (pure a : Program α).run w = (a, w) := rfl

theorem run_bind {α β : Type} (p : Program α) (f : α → Program β) (w : World) :
    (p >>= f).run w = (f (p.run w).1).run (p.run w).2 := by
  induction p generalizing w with
  | done a => rfl
  | ask r next ih => exact ih _ _

theorem run_request (r : Request) (w : World) : (request r).run w = w.answer r := rfl

end Program
end BackupRotation
