import Famix.Command.Arguments
import Famix.Draft.Traversal
import Famix.Files.Access
import Famix.Java.Decode
import Famix.Mse.Description
import Famix.Report

/-!
Commands. Each works on the files it is given access to and ends with a report.
-/
namespace Famix.Command

open Java (Project)

variable {m : Type → Type} [Monad m] (files : FileAccess m)

/-- Reads the project in a file. -/
def load (path : String) : m (Except Failure Project) := do
  match ← files.readText path with
  | .error .missing => return .error (.fileNotFound path)
  | .error problem => return .error (.invalidProject path problem.message)
  | .ok text =>
    match Project.parse text with
    | .error e => return .error (.invalidProject path e.message)
    | .ok project => return .ok project

/-- Writes a model to a file, if there is one to write to. -/
def exportModel (model : Repository) (output : Option String) : m (Except Failure Unit) := do
  match output with
  | none => return .ok ()
  | some path =>
    match ← files.write path model.mse with
    | .ok () => return .ok ()
    | .error problem => return .error (.exportFailed path problem.message)

/-- Refuses to write where a directory stands. -/
def checkOutput (output : Option String) : m (Except Failure Unit) := do
  match output with
  | none => return .ok ()
  | some path =>
    if ← files.isDirectory path then
      return .error (.invalidArguments ("output path is a directory: " ++ path))
    return .ok ()

/-- Builds the model of a project and writes it. Nothing is written unless the model is built. -/
def importProject (path : String) (output : Option String) (keying : AttributeKeying) : m Report := do
  match ← checkOutput files output with
  | .error failure => return .failed failure
  | .ok () =>
    match ← load files path with
    | .error failure => return .failed failure
    | .ok project =>
      let model := buildModel project keying
      match ← exportModel files model output with
      | .error failure => return .failed failure
      | .ok () => return .imported path project.units.length output model.summary

/-- Counts what a project holds and what its model holds. -/
def summarize (path : String) : m Report := do
  match ← load files path with
  | .error failure => return .failed failure
  | .ok project =>
    let model := buildModel project .keyed
    return .summarized path project.units.length (.of project.bindings) model.summary

def usage : String :=
  "Usage: famixer [--log-level LEVEL] COMMAND\n\n" ++
  "Commands:\n" ++
  "  import PROJECT [-o|--output FILE] [--attribute-keying keyed|legacy]\n" ++
  "  summary PROJECT\n" ++
  "  help [COMMAND]\n\n" ++
  "Options:\n" ++
  "  --log-level trace|debug|info|warn|error\n" ++
  "  -h, --help\n" ++
  "  -V, --version\n"

def version : String := "famixer 0.1.0\n"

/-- How a run of the program ends. -/
structure Exit where
  code : Nat
  output : String := ""
  /-- what goes to the user and is no answer -/
  notice : String := ""
  deriving DecidableEq, Repr

/-- The exit with a report. -/
def Exit.of (r : Report) : Exit where
  code := r.code
  output := r.text

/-- Runs the program with these arguments. -/
def run (arguments : List String) : m Exit := do
  match request? arguments with
  | none => return { code := 2, notice := usage }
  | some .version => return { code := 0, output := version }
  | some .help => return { code := 0, output := usage }
  | some (.importProject project output keying) => return .of (← importProject files project output keying)
  | some (.summarize project) => return .of (← summarize files project)

end Famix.Command
