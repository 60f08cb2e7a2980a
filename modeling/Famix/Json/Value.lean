import Famix.Json.Binary64

/-!
JSON values. An object keeps its fields in the order written, also when a name occurs twice: a reader decides
what a second occurrence means.
-/
namespace Famix.Json

/-- An integer of 64 bits, or any other number. -/
inductive Number where
  | integer (n : Int)
  | real (x : Binary64)
  deriving DecidableEq, Repr

inductive Value where
  | null
  | boolean (b : Bool)
  | number (n : Number)
  | text (s : String)
  | array (items : List Value)
  | object (fields : List (String × Value))
  deriving Inhabited, Repr

namespace Value

/-- A natural number as a value. -/
def nat (n : Nat) : Value := .number (.integer n)

/-- A value that may be absent, written as null when it is. -/
def option (write : α → Value) : Option α → Value
  | none => .null
  | some a => write a

def list (write : α → Value) (items : List α) : Value :=
  .array (items.map write)

/-- The value of the first field with this name. -/
def field? (name : String) : Value → Option Value
  | .object fields => fields.lookup name
  | _ => none

mutual
/-- How many arrays and objects stand around the innermost value, itself included. -/
def depth : Value → Nat
  | .array items => depthItems items + 1
  | .object fields => depthFields fields + 1
  | _ => 0

def depthItems : List Value → Nat
  | [] => 0
  | v :: rest => max v.depth (depthItems rest)

def depthFields : List (String × Value) → Nat
  | [] => 0
  | (_, v) :: rest => max v.depth (depthFields rest)
end

end Value

end Famix.Json
