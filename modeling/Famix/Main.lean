import Famix.Command.Run

/-!
The program: the files are those of the system.
-/
namespace Famix

/-- What went wrong with a file. The system gives the number of an error as it is or negated. -/
def FileProblem.ofError : IO.Error → FileProblem
  | .noFileOrDirectory .. => .missing
  | .noSuchThing .. => .missing
  | .inappropriateType _ code _ => if code = 21 || -code = 21 then .isDirectory else .notDirectory
  | e => .other (toString e)

def attempt (action : IO α) : IO (Except FileProblem α) := do
  try return .ok (← action)
  catch e => return .error (.ofError e)

def systemFiles : FileAccess IO where
  isDirectory path := (System.mkFilePath [path]).isDir
  read path := attempt (IO.FS.readBinFile path)
  write path contents := attempt (IO.FS.writeFile path contents)

end Famix

def main (arguments : List String) : IO UInt32 := do
  let exit ← Famix.Command.run Famix.systemFiles arguments
  IO.print exit.output
  IO.eprint exit.notice
  return exit.code.toUInt32
