import Famix.Draft.Options

/-!
Arguments of the command line. They are read one by one; an option that takes a value leaves the next argument
to be the value.
-/
namespace Famix.Command

/-- What is asked for. -/
inductive Request where
  | version
  | help
  | importProject (project : String) (output : Option String) (keying : AttributeKeying)
  | summarize (project : String)
  deriving DecidableEq, Repr

/-- The commands, by name. -/
inductive Verb where
  | importProject
  | summarize
  | help
  deriving DecidableEq, Repr

namespace Verb

def ofName? (s : String) : Option Verb :=
  if s = "import" then some .importProject
  else if s = "summary" then some .summarize
  else if s = "help" then some .help
  else none

end Verb

/-- Options that take a value. -/
inductive Setting where
  | logLevel
  | output
  | keying
  deriving DecidableEq, Repr

namespace Setting

def logLevels : List String := ["trace", "debug", "info", "warn", "error"]

def name : Setting → String
  | .logLevel => "log-level"
  | .output => "output"
  | .keying => "attribute-keying"

/-- The settings that may stand before any command, or after a given one. -/
def allowed : Option Verb → List Setting
  | some .importProject => [.logLevel, .output, .keying]
  | _ => [.logLevel]

def ofName? (verb : Option Verb) (s : String) : Option Setting :=
  (allowed verb).find? (·.name = s)

/-- A setting given by one letter. -/
def ofLetter? (verb : Option Verb) (c : Char) : Option Setting :=
  if c = 'o' then (allowed verb).find? (· = .output) else none

end Setting

/-- The forms of an argument. -/
inductive Form where
  | separator
  | long (name : String) (value : Option String)
  | short (letter : Char) (rest : List Char)
  | plain

def formOf (s : String) : Form :=
  match s.toList with
  | ['-', '-'] => .separator
  | '-' :: '-' :: cs =>
    let name := String.ofList (cs.takeWhile (· ≠ '='))
    match cs.dropWhile (· ≠ '=') with
    | [] => .long name none
    | _ :: value => .long name (some (String.ofList value))
  | '-' :: c :: rest => .short c rest
  | _ => .plain

/-- Why reading stops before the end. -/
inductive Stop where
  | misused
  | asked (r : Request)
  deriving DecidableEq, Repr

/-- What was read so far. -/
structure Reading where
  verb : Option Verb := none
  /-- the setting that waits for its value -/
  waiting : Option Setting := none
  /-- whether only plain arguments may follow -/
  separated : Bool := false
  /-- settings given before the command, or after it once there is one -/
  given : List Setting := []
  /-- the first plain argument of the command -/
  subject : Option String := none
  output : Option String := none
  keying : AttributeKeying := .keyed
  deriving DecidableEq, Repr

namespace Reading

/-- Gives a setting its value. At one level a setting is given once. -/
def assign (r : Reading) (s : Setting) (value : String) : Except Stop Reading :=
  let r' := { r with waiting := none, given := s :: r.given }
  if s ∈ r.given then .error .misused
  else match s with
    | .logLevel => if value ∈ Setting.logLevels then .ok r' else .error .misused
    | .output => if value = "" then .error .misused else .ok { r' with output := some value }
    | .keying =>
      match AttributeKeying.ofName? value with
      | some keying => .ok { r' with keying }
      | none => .error .misused

/-- An option by name: a setting, or one of those that ask for something at once. -/
def long (r : Reading) (name : String) (value : Option String) : Except Stop Reading :=
  match Setting.ofName? r.verb name, value with
  | some s, some value => r.assign s value
  | some s, none => .ok { r with waiting := some s }
  | none, none =>
    if name = "help" then .error (.asked .help)
    else if name = "version" ∧ r.verb = none then .error (.asked .version)
    else .error .misused
  | none, some _ => .error .misused

/-- An option by letter; the value may follow it directly or after an equals sign. -/
def short (r : Reading) (letter : Char) (rest : List Char) : Except Stop Reading :=
  match Setting.ofLetter? r.verb letter, rest with
  | some s, [] => .ok { r with waiting := some s }
  | some s, '=' :: value => r.assign s (String.ofList value)
  | some s, value => r.assign s (String.ofList value)
  | none, _ =>
    if letter = 'h' then .error (.asked .help)
    else if letter = 'V' ∧ r.verb = none then .error (.asked .version)
    else .error .misused

/-- A plain argument: the command, and then what it is about. -/
def plain (r : Reading) (s : String) : Except Stop Reading :=
  match r.verb with
  | none =>
    if r.separated then .error .misused
    else match Verb.ofName? s with
      | some verb => .ok { r with verb := some verb, given := [] }
      | none => .error .misused
  | some _ =>
    if r.subject.isSome ∨ s = "" then .error .misused else .ok { r with subject := some s }

def next (r : Reading) (s : String) : Except Stop Reading :=
  match r.waiting with
  | some setting =>
    match formOf s with
    | .plain => r.assign setting s
    | _ => .error .misused
  | none =>
    if r.separated ∨ r.verb = some .help then r.plain s
    else match formOf s with
      | .separator => .ok { r with separated := true }
      | .long name value => r.long name value
      | .short letter rest => r.short letter rest
      | .plain => r.plain s

/-- What is asked for once all arguments are read. -/
def finish (r : Reading) : Except Stop Request :=
  match r.waiting, r.verb, r.subject with
  | none, some .importProject, some project => .ok (.importProject project r.output r.keying)
  | none, some .summarize, some project => .ok (.summarize project)
  | none, some .help, none => .ok .help
  | none, some .help, some topic => if (Verb.ofName? topic).isSome then .ok .help else .error .misused
  | _, _, _ => .error .misused

end Reading

/-- What the arguments ask for; none when they are misused. -/
def request? (arguments : List String) : Option Request :=
  match arguments.foldlM Reading.next {} with
  | .error (.asked r) => some r
  | .error .misused => none
  | .ok r =>
    match r.finish with
    | .ok request => some request
    | .error _ => none

end Famix.Command
