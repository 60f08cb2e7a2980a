import Famix.Files.Access

/-!
A tree of files held in memory. A path is followed one step at a time: every step but the last has to lead to a
directory.
-/
namespace Famix

/-- What stands under a path. Steps are listed from the root. -/
structure FileTree where
  directories : List (List String) := []
  files : List (List String × ByteArray) := []

namespace FileTree

/-- The steps of a path. A last step that is empty stands for a slash at the end. -/
def stepsOf (path : String) : List String := path.splitOn "/"

/-- Whether there is a directory: it is listed, or something lies below it. -/
def holdsDirectory (t : FileTree) (place : List String) : Bool :=
  place.isEmpty || t.directories.any (place.isPrefixOf ·) ||
    t.files.any fun (p, _) => place.isPrefixOf p && place.length < p.length

def contents? (t : FileTree) (place : List String) : Option ByteArray := t.files.lookup place

/-- What is found at a place. -/
inductive Found where
  | directory (place : List String)
  | file (place : List String) (contents : ByteArray)
  /-- nothing, but the directory it would stand in is there -/
  | free (place : List String)

/-- What stands at a place whose directory is there. -/
def look (t : FileTree) (place : List String) : Found :=
  match t.contents? place with
  | some contents => .file place contents
  | none => if t.holdsDirectory place then .directory place else .free place

/-- The longest name of a file, in bytes. -/
def nameLimit : Nat := 255

/-- The longest path, in bytes. -/
def pathLimit : Nat := 4095

/-- One step on from a directory. -/
def advance (t : FileTree) (place : List String) (step : String) : Except FileProblem Found :=
  if step = "" || step = "." then .ok (.directory place)
  else if step = ".." then .ok (.directory place.dropLast)
  else if nameLimit < step.utf8ByteSize then .error .nameTooLong
  else .ok (t.look (place ++ [step]))

/-- Follows the steps from what was found so far. -/
def follow (t : FileTree) (found : Found) : List String → Except FileProblem Found
  | [] => .ok found
  | step :: rest =>
    match found with
    | .directory place => do t.follow (← t.advance place step) rest
    | .file _ _ => .error .notDirectory
    | .free _ => .error .missing

/-- Follows a path. -/
def find (t : FileTree) (path : String) : Except FileProblem Found :=
  if path.contains '\x00' then .error .badName
  else if path = "" then .error .missing
  else if pathLimit < path.utf8ByteSize then .error .nameTooLong
  else t.follow (.directory []) (stepsOf path)

/-- The file at a path. -/
def read (t : FileTree) (path : String) : Except FileProblem ByteArray := do
  match ← t.find path with
  | .file _ contents => .ok contents
  | .directory _ => .error .isDirectory
  | .free _ => .error .missing

def isDirectory (t : FileTree) (path : String) : Bool :=
  match t.find path with
  | .ok (.directory _) => true
  | _ => false

/-- The place that a file written under a path takes. -/
def target (t : FileTree) (path : String) : Except FileProblem (List String) := do
  if path.endsWith "/" then
    let above := (stepsOf path).reverse.dropWhile (· = "") |>.drop 1 |>.reverse
    match ← t.follow (.directory []) above with
    | .directory _ => .error .isDirectory
    | .file _ _ => .error .notDirectory
    | .free _ => .error .missing
  else
    match ← t.find path with
    | .file place _ => .ok place
    | .free place => .ok place
    | .directory _ => .error .isDirectory

/-- The tree with a file put at a place. -/
def put (t : FileTree) (place : List String) (contents : ByteArray) : FileTree :=
  { t with files := (place, contents) :: t.files.filter (·.1 ≠ place) }

/-- The tree with a directory, given by its path. -/
def addDirectory (t : FileTree) (path : String) : FileTree :=
  { t with directories := (stepsOf path).filter (fun s => s ≠ "" ∧ s ≠ ".") :: t.directories }

/-- The tree with a file, given by its path. -/
def addFile (t : FileTree) (path : String) (contents : ByteArray) : FileTree :=
  t.put ((stepsOf path).filter fun s => s ≠ "" ∧ s ≠ ".") contents

/-- A tree as a file system that changes. -/
def access : FileAccess (StateM FileTree) where
  isDirectory path := return (← get).isDirectory path
  read path := return (← get).read path
  write path contents := fun t =>
    match t.target path with
    | .ok place => (.ok (), t.put place contents.toUTF8)
    | .error problem => (.error problem, t)

end FileTree

end Famix
