import Famix.Model.Id
import Famix.Model.Modifier

/-!
The elements of a model. Named entities start as stubs and are completed when their declaration is seen;
associations join entities.
-/
namespace Famix

/-- The name of whatever is not known. -/
def unknownName : String := "__UNKNOWN__"

/-- A name under the unknown namespace. -/
def unknownKey (name : String) : String := unknownName ++ "." ++ name

/-- The name and signature of the method that stands for an initializer block. -/
def initializerName : String := "__initializer__"

/-- What all named entities have. -/
structure NamedEntity where
  name : String
  isStub : Bool
  modifiers : ModifierSet
  deriving DecidableEq, Repr

namespace NamedEntity

/-- An entity of which only the name is known. -/
def stub (name : String) : NamedEntity := ⟨name, true, ∅⟩

def addModifiers (e : NamedEntity) (modifiers : List Modifier) : NamedEntity :=
  { e with modifiers := e.modifiers.insertAll modifiers }

/-- Takes over the modifiers of a declaration unless there are some already. -/
def enrich (e : NamedEntity) (modifiers : List Modifier) : NamedEntity :=
  if e.modifiers.isEmpty then { e with modifiers := .declared modifiers } else e

/-- Marks an entity as declared. -/
def declare (e : NamedEntity) (modifiers : List Modifier) : NamedEntity :=
  { e.enrich modifiers with isStub := false }

end NamedEntity

/-- What sort of type it is. -/
inductive TypeKind where
  /-- a type of which only the name is known -/
  | unknown
  | primitive
  | classType (isInterface : Bool)
  | enumType
  /-- a generic declaration with its type parameters -/
  | generic (isInterface : Bool) (parameters : List TypeId)
  /-- an instance of a generic type -/
  | parameterized (erasure : Option TypeId) (arguments : List TypeId)
  | typeParameter
  deriving DecidableEq, Repr

namespace TypeKind

/-- The name of the FAMIX class. -/
def className : TypeKind → String
  | .unknown => "Type"
  | .primitive => "PrimitiveType"
  | .classType _ => "Class"
  | .enumType => "Enum"
  | .generic .. => "ParameterizableClass"
  | .parameterized .. => "ParameterizedType"
  | .typeParameter => "ParameterType"

def isInterface : TypeKind → Option Bool
  | .classType isInterface => some isInterface
  | .generic isInterface _ => some isInterface
  | _ => none

def parameters : TypeKind → List TypeId
  | .generic _ parameters => parameters
  | _ => []

end TypeKind

inductive MethodKind where
  | ordinary
  | constructor
  | initializer
  deriving DecidableEq, Repr

namespace MethodKind

/-- The kind as it is exported; an ordinary method has none. -/
def exported : MethodKind → Option String
  | .ordinary => none
  | .constructor => some "constructor"
  | .initializer => some "initializer"

end MethodKind

structure NamespaceEntity extends NamedEntity where
  id : NamespaceId
  deriving DecidableEq, Repr

structure TypeEntity extends NamedEntity where
  id : TypeId
  container : Container
  kind : TypeKind
  deriving DecidableEq, Repr

structure MethodEntity extends NamedEntity where
  id : MethodId
  parentType : TypeId
  signature : String
  kind : MethodKind := .ordinary
  declaredType : Option TypeId := none
  deriving DecidableEq, Repr

structure AttributeEntity extends NamedEntity where
  id : AttributeId
  parentType : TypeId
  declaredType : TypeId
  deriving DecidableEq, Repr

structure ParameterEntity extends NamedEntity where
  id : ParameterId
  parent : MethodId
  declaredType : TypeId
  deriving DecidableEq, Repr

structure LocalVariableEntity extends NamedEntity where
  id : LocalVariableId
  parent : Option MethodId
  declaredType : TypeId
  deriving DecidableEq, Repr

structure Inheritance where
  id : InheritanceId
  subclass : TypeId
  superclass : TypeId
  deriving DecidableEq, Repr

structure Invocation where
  id : InvocationId
  sender : Option MethodId
  candidates : List MethodId
  signature : String
  deriving DecidableEq, Repr

structure Access where
  id : AccessId
  accessor : Option MethodId
  variableRef : Option VariableRef
  isWrite : Bool
  deriving DecidableEq, Repr

end Famix
