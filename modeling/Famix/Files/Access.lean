/-!
Access to files by path: what a command needs of a file system, and what can go wrong.
-/
namespace Famix

inductive FileProblem where
  | missing
  | notDirectory
  | isDirectory
  | nameTooLong
  | badName
  | notText
  | other (message : String)
  deriving DecidableEq, Repr

namespace FileProblem

def message : FileProblem → String
  | .missing => "No such file or directory (os error 2)"
  | .notDirectory => "Not a directory (os error 20)"
  | .isDirectory => "Is a directory (os error 21)"
  | .nameTooLong => "File name too long (os error 36)"
  | .badName => "file name contained an unexpected NUL byte"
  | .notText => "stream did not contain valid UTF-8"
  | .other message => message

end FileProblem

/-- A file system as a command sees it. -/
structure FileAccess (m : Type → Type) where
  isDirectory : (path : String) → m Bool
  read : (path : String) → m (Except FileProblem ByteArray)
  /-- Replaces the contents of a file, and creates the file if there is none. -/
  write : (path contents : String) → m (Except FileProblem Unit)

namespace FileAccess

/-- The contents of a file as text. -/
def readText [Monad m] (files : FileAccess m) (path : String) : m (Except FileProblem String) := do
  match ← files.read path with
  | .error problem => return .error problem
  | .ok bytes =>
    match String.fromUTF8? bytes with
    | some text => return .ok text
    | none => return .error .notText

end FileAccess

end Famix
