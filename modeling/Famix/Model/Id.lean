/-!
Identity of the elements of a model. An element is known by its kind and by its place among the elements of that
kind.
-/
namespace Famix

/-- The kinds of elements. -/
inductive Kind where
  | ns
  | type
  | method
  | attribute
  | parameter
  | localVariable
  | inheritance
  | invocation
  | access
  deriving DecidableEq, Repr

namespace Kind

/-- The full name of a kind. -/
def name : Kind → String
  | .ns => "namespace"
  | .type => "type"
  | .method => "method"
  | .attribute => "attribute"
  | .parameter => "parameter"
  | .localVariable => "local_variable"
  | .inheritance => "inheritance"
  | .invocation => "invocation"
  | .access => "access"

/-- The short name of a kind, used when an id is shown. -/
def label : Kind → String
  | .ns => "ns"
  | .type => "type"
  | .method => "meth"
  | .attribute => "attr"
  | .parameter => "param"
  | .localVariable => "local"
  | .inheritance => "inh"
  | .invocation => "inv"
  | .access => "acc"

def all : List Kind :=
  [.ns, .type, .method, .attribute, .parameter, .localVariable, .inheritance, .invocation, .access]

end Kind

/-- The place of an element among those of its kind. -/
structure ElementId (kind : Kind) where
  index : Nat
  deriving DecidableEq, Repr

abbrev NamespaceId := ElementId .ns
abbrev TypeId := ElementId .type
abbrev MethodId := ElementId .method
abbrev AttributeId := ElementId .attribute
abbrev ParameterId := ElementId .parameter
abbrev LocalVariableId := ElementId .localVariable
abbrev InheritanceId := ElementId .inheritance
abbrev InvocationId := ElementId .invocation
abbrev AccessId := ElementId .access

/-- An element of any kind. -/
structure Element where
  kind : Kind
  index : Nat
  deriving DecidableEq, Repr

namespace Element

def text (e : Element) : String := e.kind.label ++ "_" ++ toString e.index

end Element

namespace ElementId

def element (id : ElementId kind) : Element := ⟨kind, id.index⟩

def text (id : ElementId kind) : String := id.element.text

end ElementId

/-- What a type can be contained in. -/
inductive Container where
  | ns (id : NamespaceId)
  | type (id : TypeId)
  | method (id : MethodId)
  deriving DecidableEq, Repr

namespace Container

def element : Container → Element
  | .ns id => id.element
  | .type id => id.element
  | .method id => id.element

def text (c : Container) : String := c.element.text

end Container

/-- A variable that an access can reach. -/
inductive VariableRef where
  | attribute (id : AttributeId)
  | parameter (id : ParameterId)
  deriving DecidableEq, Repr

namespace VariableRef

def element : VariableRef → Element
  | .attribute id => id.element
  | .parameter id => id.element

def text (v : VariableRef) : String := v.element.text

end VariableRef

end Famix
