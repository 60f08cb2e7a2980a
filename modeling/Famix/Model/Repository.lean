import Famix.Model.Entity
import Famix.Model.Postings

/-!
The repository of a model: one store for each kind of element, the order in which all elements came, and posting
lists from each element to those that belong to it. An id is a place in a store; one beyond its end denotes
nothing.
-/
namespace Famix

structure Repository where
  namespaces : Array NamespaceEntity := #[]
  types : Array TypeEntity := #[]
  methods : Array MethodEntity := #[]
  attributes : Array AttributeEntity := #[]
  parameters : Array ParameterEntity := #[]
  localVariables : Array LocalVariableEntity := #[]
  inheritances : Array Inheritance := #[]
  invocations : Array Invocation := #[]
  accesses : Array Access := #[]
  /-- all elements, in the order in which they came -/
  order : Array Element := #[]
  typesByContainer : Postings Container TypeId := {}
  methodsByType : Postings TypeId MethodId := {}
  attributesByType : Postings TypeId AttributeId := {}
  parametersByMethod : Postings MethodId ParameterId := {}
  localsByMethod : Postings MethodId LocalVariableId := {}
  supertypesByType : Postings TypeId TypeId := {}
  subtypesByType : Postings TypeId TypeId := {}
  deriving Repr

namespace Repository

def ns? (r : Repository) (id : NamespaceId) : Option NamespaceEntity := r.namespaces[id.index]?
def type? (r : Repository) (id : TypeId) : Option TypeEntity := r.types[id.index]?
def method? (r : Repository) (id : MethodId) : Option MethodEntity := r.methods[id.index]?
def attribute? (r : Repository) (id : AttributeId) : Option AttributeEntity := r.attributes[id.index]?
def parameter? (r : Repository) (id : ParameterId) : Option ParameterEntity := r.parameters[id.index]?
def localVariable? (r : Repository) (id : LocalVariableId) : Option LocalVariableEntity :=
  r.localVariables[id.index]?
def inheritance? (r : Repository) (id : InheritanceId) : Option Inheritance := r.inheritances[id.index]?
def invocation? (r : Repository) (id : InvocationId) : Option Invocation := r.invocations[id.index]?
def access? (r : Repository) (id : AccessId) : Option Access := r.accesses[id.index]?

/-! Each insertion takes the next free id of its kind and returns it. -/

def insertNamespace (entity : NamedEntity) (r : Repository) : NamespaceId × Repository :=
  let id : NamespaceId := ⟨r.namespaces.size⟩
  (id, { r with
    namespaces := r.namespaces.push { entity with id }
    order := r.order.push id.element })

def insertType (entity : NamedEntity) (container : Container) (kind : TypeKind) (r : Repository) :
    TypeId × Repository :=
  let id : TypeId := ⟨r.types.size⟩
  (id, { r with
    types := r.types.push { entity with id, container, kind }
    order := r.order.push id.element
    typesByContainer := r.typesByContainer.file container id })

def insertMethod (entity : NamedEntity) (parentType : TypeId) (signature : String) (kind : MethodKind)
    (declaredType : Option TypeId) (r : Repository) : MethodId × Repository :=
  let id : MethodId := ⟨r.methods.size⟩
  (id, { r with
    methods := r.methods.push { entity with id, parentType, signature, kind, declaredType }
    order := r.order.push id.element
    methodsByType := r.methodsByType.file parentType id })

def insertAttribute (entity : NamedEntity) (parentType declaredType : TypeId) (r : Repository) :
    AttributeId × Repository :=
  let id : AttributeId := ⟨r.attributes.size⟩
  (id, { r with
    attributes := r.attributes.push { entity with id, parentType, declaredType }
    order := r.order.push id.element
    attributesByType := r.attributesByType.file parentType id })

def insertParameter (entity : NamedEntity) (parent : MethodId) (declaredType : TypeId) (r : Repository) :
    ParameterId × Repository :=
  let id : ParameterId := ⟨r.parameters.size⟩
  (id, { r with
    parameters := r.parameters.push { entity with id, parent, declaredType }
    order := r.order.push id.element
    parametersByMethod := r.parametersByMethod.file parent id })

def insertLocalVariable (entity : NamedEntity) (parent : Option MethodId) (declaredType : TypeId)
    (r : Repository) : LocalVariableId × Repository :=
  let id : LocalVariableId := ⟨r.localVariables.size⟩
  (id, { r with
    localVariables := r.localVariables.push { entity with id, parent, declaredType }
    order := r.order.push id.element
    localsByMethod :=
      match parent with
      | some method => r.localsByMethod.file method id
      | none => r.localsByMethod })

def insertInheritance (subclass superclass : TypeId) (r : Repository) : InheritanceId × Repository :=
  let id : InheritanceId := ⟨r.inheritances.size⟩
  (id, { r with
    inheritances := r.inheritances.push { id, subclass, superclass }
    order := r.order.push id.element
    supertypesByType := r.supertypesByType.file subclass superclass
    subtypesByType := r.subtypesByType.file superclass subclass })

def insertInvocation (sender : Option MethodId) (candidates : List MethodId) (signature : String)
    (r : Repository) : InvocationId × Repository :=
  let id : InvocationId := ⟨r.invocations.size⟩
  (id, { r with
    invocations := r.invocations.push { id, sender, candidates, signature }
    order := r.order.push id.element })

def insertAccess (accessor : Option MethodId) (variableRef : Option VariableRef) (isWrite : Bool)
    (r : Repository) : AccessId × Repository :=
  let id : AccessId := ⟨r.accesses.size⟩
  (id, { r with
    accesses := r.accesses.push { id, accessor, variableRef, isWrite }
    order := r.order.push id.element })

/-! A change to an element that does not exist changes nothing. -/

def updateType (id : TypeId) (f : TypeEntity → TypeEntity) (r : Repository) : Repository :=
  { r with types := r.types.modify id.index f }

def updateMethod (id : MethodId) (f : MethodEntity → MethodEntity) (r : Repository) : Repository :=
  { r with methods := r.methods.modify id.index f }

def updateAttribute (id : AttributeId) (f : AttributeEntity → AttributeEntity) (r : Repository) :
    Repository :=
  { r with attributes := r.attributes.modify id.index f }

def updateAccess (id : AccessId) (f : Access → Access) (r : Repository) : Repository :=
  { r with accesses := r.accesses.modify id.index f }

def typesIn (r : Repository) (c : Container) : List TypeId := r.typesByContainer.of c
def methodsOf (r : Repository) (id : TypeId) : List MethodId := r.methodsByType.of id
def attributesOf (r : Repository) (id : TypeId) : List AttributeId := r.attributesByType.of id
def parameterIdsOf (r : Repository) (id : MethodId) : List ParameterId := r.parametersByMethod.of id
def localIdsOf (r : Repository) (id : MethodId) : List LocalVariableId := r.localsByMethod.of id
def supertypesOf (r : Repository) (id : TypeId) : List TypeId := r.supertypesByType.of id
def subtypesOf (r : Repository) (id : TypeId) : List TypeId := r.subtypesByType.of id

def parametersOf (r : Repository) (id : MethodId) : List ParameterEntity :=
  (r.parameterIdsOf id).filterMap r.parameter?

def localsOf (r : Repository) (id : MethodId) : List LocalVariableEntity :=
  (r.localIdsOf id).filterMap r.localVariable?

/-- How many elements there are of all kinds. -/
def size (r : Repository) : Nat := r.order.size

def isEmpty (r : Repository) : Bool := r.order.isEmpty

end Repository

/-- How many elements there are of each kind. -/
structure Summary where
  namespaces : Nat
  types : Nat
  methods : Nat
  attributes : Nat
  parameters : Nat
  localVariables : Nat
  inheritances : Nat
  invocations : Nat
  accesses : Nat
  deriving DecidableEq, Repr

namespace Summary

def total (s : Summary) : Nat :=
  s.namespaces + s.types + s.methods + s.attributes + s.parameters + s.localVariables + s.inheritances +
    s.invocations + s.accesses

end Summary

namespace Repository

def summary (r : Repository) : Summary where
  namespaces := r.namespaces.size
  types := r.types.size
  methods := r.methods.size
  attributes := r.attributes.size
  parameters := r.parameters.size
  localVariables := r.localVariables.size
  inheritances := r.inheritances.size
  invocations := r.invocations.size
  accesses := r.accesses.size

end Repository

end Famix
