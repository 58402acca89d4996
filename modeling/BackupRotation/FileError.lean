/-! Why an operation on files fails, with the wording of the system. -/
namespace BackupRotation

inductive FileError where
  | noEntry
  | busy
  | alreadyExists
  | notDirectory
  | isDirectory
  | nameTooLong
  | linkLoop
  | nullInPath
  | notText
  | other (message : String)
  deriving DecidableEq, Repr

namespace FileError

def numbered (text : String) (number : Nat) : String := s!"{text} (os error {number})"

def message : FileError → String
  | noEntry => numbered "No such file or directory" 2
  | busy => numbered "Device or resource busy" 16
  | alreadyExists => numbered "File exists" 17
  | notDirectory => numbered "Not a directory" 20
  | isDirectory => numbered "Is a directory" 21
  | nameTooLong => numbered "File name too long" 36
  | linkLoop => numbered "Too many levels of symbolic links" 40
  | nullInPath => "file name contained an unexpected NUL byte"
  | notText => "stream did not contain valid UTF-8"
  | other m => m

end FileError
end BackupRotation
