import Famix.Java.Tree

/-!
Source text of types and expressions, and the signatures taken from it.
-/
namespace Famix.Java

/-- The items one after the other with `mark` between them. -/
def separated (mark : String) : List String → String
  | [] => ""
  | [s] => s
  | s :: rest => s ++ mark ++ separated mark rest

/-- The text `s` given `n` times. -/
def repeated (s : String) : Nat → String
  | 0 => ""
  | n + 1 => s ++ repeated s n

/-- The name of a method with the texts of its parameter types. -/
def methodSignature (name : String) (types : List String) : String :=
  name ++ "(" ++ separated ", " types ++ ")"

namespace TypeExpr

mutual
def text : TypeExpr → String
  | .primitive name => name
  | .simple name => name
  | .parameterized base arguments => base.text ++ "<" ++ separated "," (texts arguments) ++ ">"
  | .array element dimensions => element.text ++ repeated "[]" dimensions
  | .wildcard bound upper => boundText upper bound

def texts : List TypeExpr → List String
  | [] => []
  | t :: rest => t.text :: texts rest

def boundText (upper : Bool) : Option TypeExpr → String
  | none => "?"
  | some bound => (if upper then "? extends " else "? super ") ++ bound.text
end

/-- The name under which a type can be filed when nothing else is known of it. -/
def recoveredName : TypeExpr → Option String
  | .simple name => some name
  | .parameterized base _ => some base.text
  | _ => none

def isVoid : TypeExpr → Bool
  | .primitive name => name = "void"
  | _ => false

end TypeExpr

namespace Expr

mutual
def text : Expr → String
  | .name identifier _ => identifier
  | .literal s => s
  | .assignment target value => target.text ++ " = " ++ value.text
  | .invocation receiver method arguments _ =>
    receiverText receiver ++ methodSignature method (texts arguments)
  | .creation type arguments _ _ => "new " ++ methodSignature type.written.text (texts arguments)
  | .other s => s

def texts : List Expr → List String
  | [] => []
  | e :: rest => e.text :: texts rest

def receiverText : Option Expr → String
  | none => ""
  | some e => e.text ++ "."
end

/-- What a call says of the called method: the name and the arguments as written. None if it is no call. -/
def callSignature : Expr → Option String
  | .invocation _ method arguments _ => some (methodSignature method (texts arguments))
  | .creation type arguments _ _ => some (methodSignature type.written.text (texts arguments))
  | _ => none

end Expr

end Famix.Java
