import Famix.Draft.TypeResolution
import Famix.Java.Display

/-!
Types that the source refers to or declares. A reference is resolved through its binding when it has one, and
through what is written otherwise.
-/
namespace Famix

open Java (TypeIndex TypeExpr TypeRef TypeDecl DeclarationKind AnonymousClass)

namespace Draft

variable (ctx : Context)

/-- The type at a place of the table. -/
def typeOfBinding (i : TypeIndex) : Drafting TypeId := fun d =>
  let reached := resolveIndex ctx.bindings i d
  (reached.value, reached.draft)

/-- The type at a place that may be missing. -/
def typeOfBinding? (i : Option TypeIndex) : Drafting TypeId :=
  match i with
  | some i => typeOfBinding ctx i
  | none => unknownType

/-- A type known only as written. If it has no name to go by, it is the unknown type. -/
def typeOfExpr (t : TypeExpr) : Drafting TypeId :=
  match t.recoveredName with
  | some name => unknownTypeNamed name
  | none => unknownType

def typeOfRef (t : TypeRef) : Drafting TypeId :=
  match ctx.bindings.resolveType t.binding t.written with
  | .resolved i _ => typeOfBinding ctx i
  | .unresolved written => typeOfExpr written

/-- The type that a declaration in the current scope belongs to; outside any type, the unknown one. -/
def ownerOrUnknown : Drafting TypeId := do
  match (← get).ownerType with
  | some id => return id
  | none => unknownType

def inherit (subclass superclass : TypeId) : Drafting InheritanceId :=
  insert (Repository.insertInheritance subclass superclass)

def inheritBinding (subclass : TypeId) (superclass : TypeIndex) : Drafting InheritanceId := do
  inherit subclass (← typeOfBinding ctx superclass)

def inheritRef (subclass : TypeId) (superclass : TypeRef) : Drafting InheritanceId := do
  inherit subclass (← typeOfRef ctx superclass)

/-- Makes every type of a list a supertype, one after the other. -/
def inheritRefs (subclass : TypeId) : List TypeRef → Drafting Unit
  | [] => return
  | t :: rest => do
    let _ ← inheritRef ctx subclass t
    inheritRefs subclass rest

/-- The kind of type that a declaration introduces. -/
def declaredKind : DeclarationKind → TypeKind
  | .classType => .classType false
  | .interfaceType => .classType true
  | .enumType => .enumType

/-- The innermost open container; outside any, the unknown namespace. -/
def containerOrUnknown : Drafting Container := do
  match (← get).scope.current with
  | some c => return c
  | none => return .ns (← unknownNamespace)

/-- The type of a declaration without a binding. The supertypes are taken over when the type is new. -/
def typeOfUnboundDecl (decl : TypeDecl) : Drafting TypeId := do
  let container ← containerOrUnknown
  let key := (← get).repository.childName container decl.name
  match ← internType key decl.name container (declaredKind decl.kind) with
  | .existing id => return id
  | .created id =>
    inheritRefs ctx id (decl.superclass.toList ++ decl.interfaces)
    return id

/-- Changes what is known of a type by name. -/
def editType (id : TypeId) (f : NamedEntity → NamedEntity) : Drafting Unit :=
  modify (edit (·.updateType id fun t => { t with toNamedEntity := f t.toNamedEntity }))

/-- The type that a declaration introduces, marked as declared. -/
def typeOfDecl (decl : TypeDecl) : Drafting TypeId := do
  let id ← match ctx.bindings.resolveType decl.binding decl with
    | .resolved i _ => typeOfBinding ctx i
    | .unresolved decl => typeOfUnboundDecl ctx decl
  editType id (·.declare decl.modifiers)
  return id

/-- Where an anonymous class is contained: inside a method, in the type of the method. -/
def anonymousContainer : Drafting Container := do
  match ← containerOrUnknown with
  | .method id =>
    match (← get).repository.method? id with
    | some m => return .type m.parentType
    | none => return .method id
  | c => return c

/-- The type of an anonymous class. It is called by the number of types that its container holds already, and its
supertype is the type it instantiates. -/
def typeOfAnonymous (anonymous : AnonymousClass) (instantiated : TypeRef) : Drafting TypeId := do
  let container ← anonymousContainer
  let r := (← get).repository
  let name := "$" ++ toString (r.typesIn container).length
  let kind := match ctx.bindings.resolveType anonymous.binding () with
    | .resolved _ b => kindOf b
    | .unresolved _ => .classType false
  match ← internType (r.childName container name) name container kind with
  | .existing id => return id
  | .created id =>
    editType id ({ · with isStub := false })
    let _ ← inheritRef ctx id instantiated
    return id

end Draft

end Famix
