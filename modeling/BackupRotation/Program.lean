import BackupRotation.Event
import BackupRotation.Volume.Operations
/-! Programs that work on files and talk to a terminal, as trees of requests: each request with what
happens next on every answer to it. A program does nothing by itself; a world answers it, or a machine
does. -/
namespace BackupRotation

inductive Request where
  | readText (path : String)
  | entries (path : String)
  | status (path : String)
  | removeFile (path : String)
  | createDirectory (path : String)
  | writeText (path text : String)
  | rename (source target : String)
  | print (text : String)
  | readLine
  | now
  | tell (e : Event)
  deriving DecidableEq, Repr

def Request.Answer : Request → Type
  | readText _ => Except FileError String
  | entries _ => Except FileError (List Octets)
  | status _ => Except FileError Status
  | removeFile _ => Except FileError Unit
  | createDirectory _ => Except FileError Unit
  | writeText _ _ => Except FileError Unit
  | rename _ _ => Except FileError Unit
  | print _ => Unit
  | readLine => Except FileError String
  | now => Instant
  | tell _ => Unit

inductive Program (α : Type) where
  | done (a : α)
  | ask (r : Request) (next : r.Answer → Program α)

namespace Program

def bind {α β : Type} (p : Program α) (f : α → Program β) : Program β :=
  match p with
  | done a => f a
  | ask r next => ask r fun answer => (next answer).bind f

instance : Monad Program where
  pure := done
  bind := bind

def request (r : Request) : Program r.Answer := ask r done

def readText (path : String) : Program (Except FileError String) := request (.readText path)
def entries (path : String) : Program (Except FileError (List Octets)) := request (.entries path)
def status (path : String) : Program (Except FileError Status) := request (.status path)
def removeFile (path : String) : Program (Except FileError Unit) := request (.removeFile path)
def createDirectory (path : String) : Program (Except FileError Unit) :=
  request (.createDirectory path)
def writeText (path text : String) : Program (Except FileError Unit) :=
  request (.writeText path text)
def rename (source target : String) : Program (Except FileError Unit) :=
  request (.rename source target)
def print (text : String) : Program Unit := request (.print text)
def readLine : Program (Except FileError String) := request .readLine
def now : Program Instant := request .now
def tell (e : Event) : Program Unit := request (.tell e)

def tellAll : List Event → Program Unit
  | [] => pure ()
  | e :: es => do
    tell e
    tellAll es

theorem bind_done {α β : Type} (a : α) (f : α → Program β) : (pure a : Program α) >>= f = f a := rfl

theorem bind_ask {α β : Type} (r : Request) (next : r.Answer → Program α) (f : α → Program β) :
    ask r next >>= f = ask r fun answer => next answer >>= f := rfl

theorem id_map {α : Type} (p : Program α) : id <$> p = p := by
  induction p with
  | done a => rfl
  | ask r next ih => exact congrArg (ask r) (funext fun answer => ih answer)

theorem bind_assoc {α β γ : Type} (p : Program α) (f : α → Program β) (g : β → Program γ) :
    p >>= f >>= g = p >>= fun a => f a >>= g := by
  induction p with
  | done a => rfl
  | ask r next ih => exact congrArg (ask r) (funext fun answer => ih answer)

instance : LawfulMonad Program :=
  LawfulMonad.mk' Program id_map (fun _ _ => rfl) bind_assoc

end Program
end BackupRotation
