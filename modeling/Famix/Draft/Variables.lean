import Famix.Draft.Methods

/-!
Attributes, parameters and local variables.
-/
namespace Famix

open Java (TypeRef VariableBinding VariableKind Fragment FieldDecl ParameterDecl)

namespace Draft

variable (ctx : Context)

/-- The parameter that a declaration gives to a method. -/
def parameterOfDecl (decl : ParameterDecl) (method : MethodId) : Drafting ParameterId := do
  let d ← get
  let key := d.repository.methodName method ++ "." ++ decl.name
  match d.registry.parameters.get? key with
  | some id => return id
  | none =>
    let declaredType ← typeOfRef ctx decl.type
    internParameter key { NamedEntity.stub decl.name with isStub := false } method declaredType

/-- The first parameter with this name of the method that is open. -/
def currentParameter (d : Draft) (name : String) : Option ParameterId := do
  let method ← d.scope.currentMethod
  let parameter ← (d.repository.parametersOf method).find? (·.name = name)
  return parameter.id

/-- The attribute of a bound field, a member of the class that declares it. -/
def attributeOfBinding (b : VariableBinding) : Drafting AttributeId := do
  let parentType ← match b.declaringClass with
    | some i => typeOfBinding ctx i
    | none => ownerOrUnknown
  let key ← memberKey parentType b.name
  match (← get).registry.attributes.get? key with
  | some id => return id
  | none =>
    let declaredType ← typeOfBinding? ctx b.type
    internAttribute key (.stub b.name) parentType declaredType

/-- The attribute of a field that is known only from its declaration. -/
def attributeOfUnbound (fragment : Fragment) (field : FieldDecl) : Drafting AttributeId := do
  let parentType ← ownerOrUnknown
  let typeName := (← get).repository.typeName parentType
  let key := match ctx.keying with
    | .keyed => typeName ++ "." ++ fragment.name
    | .legacy => typeName
  match (← get).registry.attributes.get? key with
  | some id => return id
  | none =>
    let declaredType ← typeOfRef ctx field.type
    internAttribute key (.stub fragment.name) parentType declaredType

/-- The binding of a fragment, when it is that of a field. -/
def fieldBinding? (fragment : Fragment) : Option VariableBinding := do
  let b ← ctx.bindings.variableAt? (← fragment.binding)
  if b.kind = .field then some b else none

/-- The attribute that a field declaration introduces. -/
def attributeOfFragment (fragment : Fragment) (field : FieldDecl) : Drafting AttributeId := do
  let bound := fieldBinding? ctx fragment
  let id ← match bound with
    | some b => attributeOfBinding ctx b
    | none => attributeOfUnbound ctx fragment field
  let modifiers := match bound with
    | some b => b.modifiers
    | none => field.modifiers
  modify (edit (·.updateAttribute id fun a =>
    { a with toNamedEntity := { a.toNamedEntity.enrich modifiers with isStub := true } }))
  return id

/-- A new local variable of the method that is open. -/
def localVariable (fragment : Fragment) (type : TypeRef) : Drafting LocalVariableId := do
  let declaredType ← typeOfRef ctx type
  let parent ← currentMethod
  insert (Repository.insertLocalVariable (.stub fragment.name) parent declaredType)

end Draft

end Famix
