import Famix.Draft.References

/-!
Methods. A method is known by its owner and its signature, and the signature by the types of the parameters.
-/
namespace Famix

open Java (TypeIndex TypeRef MethodIndex MethodBinding MethodDecl InitializerDecl ParameterDecl methodSignature)

namespace Draft

variable (ctx : Context)

/-- The text of a parameter type that is known by its place in the table. -/
def boundTypeText (i : TypeIndex) : String :=
  match ctx.bindings.typeAt? i with
  | some b => b.qualifiedName
  | none => unknownName

/-- The text of the type of a declared parameter. -/
def writtenTypeText (t : TypeRef) : String :=
  match ctx.bindings.resolveType t.binding t.written with
  | .resolved _ b => b.qualifiedName
  | .unresolved written => written.text

/-- Whether nothing is returned. -/
def isVoid (t : TypeRef) : Bool :=
  match ctx.bindings.resolveType t.binding t.written with
  | .resolved _ b => b.isVoid
  | .unresolved written => written.isVoid

def methodKind (isConstructor : Bool) : MethodKind :=
  if isConstructor then .constructor else .ordinary

/-- The key of a member of a type. -/
def memberKey (owner : TypeId) (name : String) : Drafting String := do
  return (← get).repository.typeName owner ++ "." ++ name

/-- A method of which only the signature is known. -/
def unresolvedMethod (signature : String) : Drafting MethodId := do
  let owner ← unknownType
  let name := String.ofList (signature.toList.takeWhile (· ≠ '('))
  let key ← memberKey owner signature
  let ensured ← internMethod key (.stub name) owner signature .ordinary
  return ensured.id

/-- The type that a bound method returns, unless that is nothing or not known. -/
def returnedType (b : MethodBinding) : Drafting (Option TypeId) :=
  match b.returnType with
  | none => return none
  | some i =>
    match ctx.bindings.typeAt? i with
    | some t => if t.isVoid then return none else some <$> typeOfBinding ctx i
    | none => return none

def methodOfResolved (b : MethodBinding) (owner : TypeId) : Drafting MethodId := do
  let signature := methodSignature b.name (b.parameterTypes.map (boundTypeText ctx))
  let key ← memberKey owner signature
  match ← internMethod key (.stub b.name) owner signature (methodKind b.isConstructor) with
  | .existing id => return id
  | .created id =>
    let declaredType ← returnedType ctx b
    modify (edit (·.updateMethod id fun m =>
      { m with modifiers := .declared b.modifiers, declaredType }))
    return id

/-- The method at a place of the table, a member of the class that declares it. -/
def methodOfBinding (i : MethodIndex) : Drafting MethodId :=
  match ctx.bindings.methodAt? i with
  | none => unresolvedMethod (methodSignature unknownName [])
  | some b => do
    let owner ← typeOfBinding? ctx b.declaringClass
    methodOfResolved ctx b owner

def methodOfUnboundDecl (decl : MethodDecl) (owner : TypeId) : Drafting MethodId := do
  let signature := methodSignature decl.name (decl.parameters.map (writtenTypeText ctx ·.type))
  let key ← memberKey owner signature
  match ← internMethod key (.stub decl.name) owner signature (methodKind decl.isConstructor) with
  | .existing id => return id
  | .created id =>
    let declaredType ← match decl.returnType with
      | none => pure none
      | some t => if isVoid ctx t then pure none else some <$> typeOfRef ctx t
    modify (edit (·.updateMethod id fun m => { m with declaredType }))
    return id

/-- The method that a declaration introduces, marked as declared. -/
def methodOfDecl (decl : MethodDecl) : Drafting MethodId := do
  let owner ← ownerOrUnknown
  let id ← match ctx.bindings.resolveMethod decl.binding decl with
    | .resolved _ b => methodOfResolved ctx b owner
    | .unresolved decl => methodOfUnboundDecl ctx decl owner
  modify (edit (·.updateMethod id fun m =>
    { m with toNamedEntity := m.toNamedEntity.declare decl.modifiers }))
  return id

/-- A new method for an initializer block. It has no name to be found by. -/
def initializerMethod (decl : InitializerDecl) : Drafting MethodId := do
  let owner ← ownerOrUnknown
  let modifiers : ModifierSet := .ofList (if decl.isStatic then [.static] else [])
  insert (Repository.insertMethod ⟨initializerName, false, modifiers⟩ owner initializerName .initializer none)

end Draft

end Famix
