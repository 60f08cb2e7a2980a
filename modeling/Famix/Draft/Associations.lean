import Famix.Draft.Variables

/-!
Invocations and accesses. Each is filed with the method that is open, if any.
-/
namespace Famix

open Java (MethodIndex VariableIndex VariableBinding Expr)

namespace Draft

variable (ctx : Context)

/-- A call of the bound method, or of one of which only the signature is known. -/
def invoke (binding : Option MethodIndex) (signature : String) : Drafting InvocationId := do
  let candidate ← match ctx.bindings.resolveMethod binding signature with
    | .resolved i _ => methodOfBinding ctx i
    | .unresolved signature => unresolvedMethod signature
  let sender ← currentMethod
  insert (Repository.insertInvocation sender [candidate] signature)

/-- The binding of the method that an expression calls. -/
def calledBinding : Expr → Option MethodIndex
  | .invocation _ _ _ binding => binding
  | .creation _ _ binding _ => binding
  | _ => none

/-- The call that an expression makes, if it is one. -/
def invokeExpr (e : Expr) : Drafting (Option InvocationId) :=
  match e.callSignature with
  | none => return none
  | some signature => some <$> invoke ctx (calledBinding e) signature

/-- The variable that a bound name reaches. Local variables are not followed. -/
def variableOfBinding (b : VariableBinding) : Drafting (Option VariableRef) := do
  match b.kind with
  | .field => return some (.attribute (← attributeOfBinding ctx b))
  | .parameter => return ((← get).currentParameter b.name).map .parameter
  | .localVariable => return none

def access (variableRef : Option VariableRef) : Drafting AccessId := do
  let accessor ← currentMethod
  insert (Repository.insertAccess accessor variableRef false)

/-- An access to the variable at a place of the table. -/
def accessBinding (i : VariableIndex) : Drafting AccessId := do
  let variableRef ← match ctx.bindings.variableAt? i with
    | some b => variableOfBinding ctx b
    | none => pure none
  access variableRef

/-- The binding of the variable that an expression names. -/
def namedBinding? : Expr → Option VariableBinding
  | .name _ (some i) => ctx.bindings.variableAt? i
  | _ => none

/-- The access that an expression makes, if it is a bound name. -/
def accessExpr (e : Expr) : Drafting (Option AccessId) :=
  match namedBinding? ctx e with
  | none => return none
  | some b => do
    let variableRef ← variableOfBinding ctx b
    return some (← access variableRef)

/-- The variable that an expression reaches, if it is a bound name. -/
def variableOfExpr (e : Expr) : Drafting (Option VariableRef) :=
  match namedBinding? ctx e with
  | none => return none
  | some b => variableOfBinding ctx b

/-- Marks an access as one that writes; false if there is no such access. -/
def markWrite (id : AccessId) : Drafting Bool := do
  let known := ((← get).repository.access? id).isSome
  modify (edit (·.updateAccess id fun a => { a with isWrite := true }))
  return known

end Draft

end Famix
