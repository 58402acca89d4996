import BackupRotation.Job.Backups
import BackupRotation.Job.Settings
/-! The command line: what its arguments ask for, and running that. Arguments are read from left to
right, and the first that is wrong or asks for help decides. -/
namespace BackupRotation

inductive Command where
  | list (dir : Option String)
  | plan (dir policy : Option String) (explain json : Bool)
  | prune (dir policy : Option String) (dryRun yes : Bool) (parallelism : Option Nat)
  | settingsList
  | settingsGet (key : String)
  | settingsSet (key value : String)
  | settingsPath (create : Bool)
  | settingsExample
  deriving DecidableEq, Repr

namespace Command

def job (location : Option String) : Command → Job Unit
  | list dir => Job.listBackups location dir
  | plan dir policy explain json => Job.planPruning location dir policy explain json
  | prune dir policy dryRun yes _ => Job.pruneBackups location dir policy dryRun yes
  | settingsList => Job.listSettings location
  | settingsGet key => Job.getSetting location key
  | settingsSet key value => Job.setSetting location key value
  | settingsPath create => Job.showLocation location create
  | settingsExample => Job.showExample

end Command

namespace CommandLine

inductive Kind where
  | flag
  | text
  | path
  | number
  deriving DecidableEq, Repr

structure Switch where
  long : String
  short : Option Char
  kind : Kind
  deriving DecidableEq, Repr

structure Grammar where
  switches : List Switch
  arguments : Nat

structure Given where
  values : List (String × String)
  arguments : List String
  deriving DecidableEq, Repr

inductive Stop where
  | help
  | version
  | misuse
  deriving DecidableEq, Repr

def allows : Kind → String → Bool
  | .path, value => value ≠ ""
  | .number, value => (Text.natural64? value.toList).isSome
  | _, _ => true

namespace Given

def value? (g : Given) (long : String) : Option String :=
  (g.values.find? fun v => v.1 == long).map Prod.snd

def has (g : Given) (long : String) : Bool := (g.value? long).isSome

def withOption (g : Given) (s : Switch) (value : String) : Except Stop Given :=
  if g.has s.long || !allows s.kind value then .error .misuse
  else .ok { g with values := g.values ++ [(s.long, value)] }

def withArgument (g : Given) (limit : Nat) (a : String) : Except Stop Given :=
  if g.arguments.length < limit then .ok { g with arguments := g.arguments ++ [a] }
  else .error .misuse

def withArguments (g : Given) (limit : Nat) : List String → Except Stop Given
  | [] => .ok g
  | a :: as => do withArguments (← g.withArgument limit a) limit as

end Given

def shortOptions (grammar : Grammar) (g : Given) : List Char → Except Stop Given
  | [] => .ok g
  | c :: cs =>
    if c = 'h' then .error .help
    else
      match grammar.switches.find? fun s => s.short == some c with
      | some s => do shortOptions grammar (← g.withOption s "") cs
      | none => .error .misuse

/-- Only a lone dash is a value that begins with a dash. -/
def isValue (a : String) : Bool := a == "-" || a.toList.head? != some '-'

def cutOption (cs : List Char) : String × Option String :=
  match Text.splitFirst? '=' cs with
  | some (name, value) => (String.ofList name, some (String.ofList value))
  | none => (String.ofList cs, none)

def longOption (grammar : Grammar) (g : Given) (name : String) (attached next : Option String) :
    Except Stop (Given × Bool) :=
  match grammar.switches.find? fun s => s.long == name with
  | none => .error .misuse
  | some s =>
    if s.kind = .flag then
      if attached.isNone then (g.withOption s "").map fun g => (g, false) else .error .misuse
    else
      match attached, next.filter isValue with
      | some value, _ => (g.withOption s value).map fun g => (g, false)
      | none, some value => (g.withOption s value).map fun g => (g, true)
      | none, none => .error .misuse

def argument (grammar : Grammar) (g : Given) (a : String) (next : Option String) :
    Except Stop (Given × Bool) :=
  match a.toList with
  | '-' :: '-' :: cs =>
    let (name, attached) := cutOption cs
    if name = "help" then .error (if attached.isNone then .help else .misuse)
    else longOption grammar g name attached next
  | '-' :: c :: cs => (shortOptions grammar g (c :: cs)).map fun g => (g, false)
  | _ => (g.withArgument grammar.arguments a).map fun g => (g, false)

def read (grammar : Grammar) (g : Given) : (taken : Bool) → List String → Except Stop Given
  | _, [] => .ok g
  | true, _ :: rest => read grammar g false rest
  | false, a :: rest =>
    if a = "--" then g.withArguments grammar.arguments rest
    else do
      let (g, taken) ← argument grammar g a rest.head?
      read grammar g taken rest

def dirSwitch : Switch := ⟨"dir", none, .path⟩
def policySwitch : Switch := ⟨"policy", none, .text⟩

def given (switches : List Switch) (arguments : Nat) (as : List String) : Except Stop Given := do
  let g ← read ⟨switches, arguments⟩ ⟨[], []⟩ false as
  if g.arguments.length = arguments then .ok g else .error .misuse

def listCommand (as : List String) : Except Stop Command := do
  let g ← given [dirSwitch] 0 as
  .ok (.list (g.value? "dir"))

def planCommand (as : List String) : Except Stop Command := do
  let g ← given [dirSwitch, policySwitch, ⟨"explain", none, .flag⟩, ⟨"json", none, .flag⟩] 0 as
  .ok (.plan (g.value? "dir") (g.value? "policy") (g.has "explain") (g.has "json"))

def pruneCommand (as : List String) : Except Stop Command := do
  let g ← given [dirSwitch, policySwitch, ⟨"dry-run", none, .flag⟩, ⟨"yes", some 'y', .flag⟩,
    ⟨"parallelism", none, .number⟩] 0 as
  .ok (.prune (g.value? "dir") (g.value? "policy") (g.has "dry-run") (g.has "yes")
    ((g.value? "parallelism").bind fun n => Text.natural64? n.toList))

def settingsCommand (name : String) (as : List String) : Except Stop Command :=
  match name with
  | "list" => do
    let _ ← given [] 0 as
    .ok .settingsList
  | "get" => do
    match (← given [] 1 as).arguments with
    | [key] => .ok (.settingsGet key)
    | _ => .error .misuse
  | "set" => do
    match (← given [] 2 as).arguments with
    | [key, value] => .ok (.settingsSet key value)
    | _ => .error .misuse
  | "path" => do
    let g ← given [⟨"create", none, .flag⟩] 0 as
    .ok (.settingsPath (g.has "create"))
  | "example" => do
    let _ ← given [] 0 as
    .ok .settingsExample
  | _ => .error .misuse

def settingsNames : List String := ["list", "get", "set", "path", "example", "help"]

def settingsHelp : List String → Stop
  | [] => .help
  | [name] => if name ∈ settingsNames then .help else .misuse
  | _ => .misuse

def help : List String → Stop
  | [] => .help
  | "config" :: names => settingsHelp names
  | [name] => if name ∈ ["list", "plan", "prune", "help"] then .help else .misuse
  | _ => .misuse

def leadingOption (a : String) : Stop :=
  match a.toList with
  | '-' :: 'h' :: _ => .help
  | '-' :: 'V' :: _ => .version
  | _ => if a = "--help" then .help else if a = "--version" then .version else .misuse

def leadingSettingsOption (a : String) : Stop :=
  match leadingOption a with
  | .help => .help
  | _ => .misuse

def command : List String → Except Stop Command
  | "list" :: as => listCommand as
  | "plan" :: as => planCommand as
  | "prune" :: as => pruneCommand as
  | "config" :: "help" :: as => .error (settingsHelp as)
  | "config" :: name :: as =>
    if isValue name then settingsCommand name as else .error (leadingSettingsOption name)
  | "help" :: as => .error (help as)
  | a :: _ => .error (leadingOption a)
  | [] => .error .misuse

def versionText : String := "keeper 0.1.0\n"

structure Exit where
  status : Nat
  complaint : List String
  deriving DecidableEq, Repr

def stop : Stop → Program Exit
  | .version => do
    Program.print versionText
    return ⟨0, []⟩
  | .help => return ⟨0, []⟩
  | .misuse => return ⟨2, []⟩

def run (location : Option String) (as : List String) : Program Exit := do
  match command as with
  | .error s => stop s
  | .ok c =>
    match ← (c.job location).run with
    | .ok () => return ⟨0, []⟩
    | .error f => return ⟨1, f.chain⟩

example : command ["plan", "--policy=simple:2", "--json"] =
    .ok (.plan none (some "simple:2") false true) := by rfl

end CommandLine
end BackupRotation
