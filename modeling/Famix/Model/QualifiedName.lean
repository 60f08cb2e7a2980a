import Famix.Model.Repository

/-!
Qualified names. The name of an element follows from where it is contained: the name of the container, a dot, and
its own name. A container that does not exist has the empty name.
-/
namespace Famix

/-- A name inside a container; an empty container name adds nothing. -/
def joinName (outer name : String) : String :=
  if outer.isEmpty then name else outer ++ "." ++ name

namespace Repository

/-- The name of a container that is at most `steps` containers away from the outermost one. -/
def containerNameWithin (r : Repository) : (steps : Nat) → Container → String
  | 0, _ => ""
  | _ + 1, .ns id =>
    match r.ns? id with
    | some n => n.name
    | none => ""
  | steps + 1, .type id =>
    match r.type? id with
    | some t => joinName (r.containerNameWithin steps t.container) t.name
    | none => ""
  | steps + 1, .method id =>
    match r.method? id with
    | some m => joinName (r.containerNameWithin steps (.type m.parentType)) m.signature
    | none => ""

/-- The name of a container. No chain of containers that ends is longer than the number of types and methods. -/
def containerName (r : Repository) (c : Container) : String :=
  r.containerNameWithin (r.types.size + r.methods.size + 1) c

def namespaceName (r : Repository) (id : NamespaceId) : String := r.containerName (.ns id)

def typeName (r : Repository) (id : TypeId) : String := r.containerName (.type id)

def methodName (r : Repository) (id : MethodId) : String := r.containerName (.method id)

def attributeName (r : Repository) (id : AttributeId) : String :=
  match r.attribute? id with
  | some a => joinName (r.typeName a.parentType) a.name
  | none => ""

def parameterName (r : Repository) (id : ParameterId) : String :=
  match r.parameter? id with
  | some p => joinName (r.methodName p.parent) p.name
  | none => ""

/-- The name that something called `name` would have inside a container. -/
def childName (r : Repository) (c : Container) (name : String) : String :=
  joinName (r.containerName c) name

end Repository

end Famix
