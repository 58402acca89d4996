import BackupRotation.FileError
/-! Why a store cannot list its backups or delete one of them. -/
namespace BackupRotation

inductive StorageError where
  | inaccessible (path : String) (cause : FileError)
  | notFound (id : String)
  | invalidIdentifier (id : String)
  | refused (id : String)
  deriving DecidableEq, Repr

namespace StorageError

def message : StorageError → String
  | inaccessible path cause => s!"I/O error on {path}: {cause.message}"
  | notFound id => s!"artifact not found: {id}"
  | invalidIdentifier id => s!"invalid artifact identifier: '{id}'"
  | refused id => s!"injected failure deleting {id}"

def chain (e : StorageError) : List String :=
  match e with
  | inaccessible _ cause => [e.message, cause.message]
  | _ => [e.message]

end StorageError
end BackupRotation
