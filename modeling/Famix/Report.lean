import Famix.Json.Writer
import Famix.Model.Wire

/-!
Reports. Every command answers one: what it found, or why it failed.
-/
namespace Famix

open Json (Value Reader)

/-- Why a command failed. -/
inductive Failure where
  | invalidArguments (message : String)
  | fileNotFound (path : String)
  | invalidProject (path message : String)
  | exportFailed (path reason : String)
  | internal (message : String)
  deriving DecidableEq, Repr

namespace Failure

def message : Failure → String
  | .invalidArguments message => "invalid arguments: " ++ message
  | .fileNotFound path => "file not found: " ++ path
  | .invalidProject path message => "invalid project " ++ path ++ ": " ++ message
  | .exportFailed path reason => "export failed: cannot write " ++ path ++ ": " ++ reason
  | .internal message => "internal error: " ++ message

/-- The exit code. -/
def code : Failure → Nat
  | .invalidArguments _ => 2
  | .fileNotFound _ => 3
  | .invalidProject _ _ => 3
  | .exportFailed _ _ => 4
  | .internal _ => 10

/-- The file concerned. -/
def path? : Failure → Option String
  | .invalidArguments _ => none
  | .fileNotFound path => some path
  | .invalidProject path _ => some path
  | .exportFailed path _ => some path
  | .internal _ => none

end Failure

/-- How many bindings of each kind a project holds. -/
structure BindingCounts where
  types : Nat
  methods : Nat
  vars : Nat
  deriving DecidableEq, Repr

namespace BindingCounts

def of (t : Java.BindingTable) : BindingCounts := ⟨t.types.length, t.methods.length, t.vars.length⟩

def json (c : BindingCounts) : Value := .object [
  ("types", .nat c.types),
  ("methods", .nat c.methods),
  ("variables", .nat c.vars)]

def reader : Reader BindingCounts :=
  .record "struct BindingCounts"
    (.cons (.required "types" .count) <|
     .cons (.required "methods" .count) <|
     .cons (.required "variables" .count) .nil)
    fun (types, methods, vars, _) => ⟨types, methods, vars⟩

end BindingCounts

inductive Report where
  | imported (project : String) (units : Nat) (output : Option String) (summary : Summary)
  | summarized (project : String) (units : Nat) (bindings : BindingCounts) (summary : Summary)
  | failed (failure : Failure)
  deriving DecidableEq, Repr

namespace Report

/-- A field that is left out when there is nothing to write. -/
def optionalField (name : String) (value : Option String) : List (String × Value) :=
  match value with
  | some s => [(name, .text s)]
  | none => []

def status : Report → String
  | .failed _ => "error"
  | _ => "ok"

/-- The fields after the status and the version. -/
def details : Report → List (String × Value)
  | .imported project units output summary =>
    [("project", .text project), ("units", .nat units)] ++ optionalField "output" output ++
      [("summary", summary.json)]
  | .summarized project units bindings summary => [
    ("project", .text project),
    ("units", .nat units),
    ("bindings", bindings.json),
    ("summary", summary.json),
    ("total", .nat summary.total)]
  | .failed failure => [("error", .object (
    [("code", .nat failure.code), ("message", .text failure.message)] ++
      optionalField "path" failure.path?))]

def json (r : Report) : Value :=
  .object (("status", .text r.status) :: ("schema_version", .text "1") :: r.details)

/-- What is printed. -/
def text (r : Report) : String := r.json.indented ++ "\n"

/-- The exit code that goes with a report. -/
def code : Report → Nat
  | .failed failure => failure.code
  | _ => 0

end Report

end Famix
