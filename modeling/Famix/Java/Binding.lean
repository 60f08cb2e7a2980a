import Famix.Model.Modifier

/-!
Bindings: what is known of the types, methods and variables that a source text refers to. A table lists them, and
all references go by the place in it. A place beyond the end of the table is no error; it stands for something
that is not known.
-/
namespace Famix.Java

/-- A place in the list of types of a table. -/
abbrev TypeIndex := Nat
/-- A place in the list of methods of a table. -/
abbrev MethodIndex := Nat
/-- A place in the list of variables of a table. -/
abbrev VariableIndex := Nat

structure TypeBinding where
  qualifiedName : String
  name : String
  package : Option String := none
  declaringClass : Option TypeIndex := none
  modifiers : List Modifier := []
  isPrimitive : Bool := false
  isParameterized : Bool := false
  isGeneric : Bool := false
  isEnum : Bool := false
  isInterface : Bool := false
  superclass : Option TypeIndex := none
  interfaces : List TypeIndex := []
  erasure : Option TypeIndex := none
  typeArguments : List TypeIndex := []
  typeParameters : List String := []
  deriving DecidableEq, Repr

structure MethodBinding where
  name : String
  declaringClass : Option TypeIndex := none
  parameterTypes : List TypeIndex := []
  returnType : Option TypeIndex := none
  isConstructor : Bool := false
  modifiers : List Modifier := []
  deriving DecidableEq, Repr

inductive VariableKind where
  | field
  | parameter
  | localVariable
  deriving DecidableEq, Repr

structure VariableBinding where
  name : String
  kind : VariableKind
  declaringClass : Option TypeIndex := none
  type : Option TypeIndex := none
  modifiers : List Modifier := []
  deriving DecidableEq, Repr

structure BindingTable where
  types : List TypeBinding := []
  methods : List MethodBinding := []
  vars : List VariableBinding := []
  deriving DecidableEq, Repr

/-- What a reference into the table comes to: an entry with its place, or what the source text itself says. -/
inductive Resolution (α β : Type) where
  | resolved (index : Nat) (entry : α)
  | unresolved (hint : β)
  deriving DecidableEq, Repr

namespace TypeBinding

/-- A class of a package. -/
def inPackage (package name : String) : TypeBinding where
  qualifiedName := package ++ "." ++ name
  name := name
  package := some package

def primitive (name : String) : TypeBinding where
  qualifiedName := name
  name := name
  isPrimitive := true

def asInterface (b : TypeBinding) : TypeBinding := { b with isInterface := true }

def asEnum (b : TypeBinding) : TypeBinding := { b with isEnum := true }

def withTypeParameters (b : TypeBinding) (names : List String) : TypeBinding :=
  { b with isGeneric := true, typeParameters := names }

def parameterized (b : TypeBinding) (erasure : TypeIndex) (arguments : List TypeIndex) : TypeBinding :=
  { b with isParameterized := true, erasure := some erasure, typeArguments := arguments }

def nestedIn (b : TypeBinding) (outer : TypeIndex) : TypeBinding :=
  { b with declaringClass := some outer }

def withSuperclass (b : TypeBinding) (superclass : TypeIndex) : TypeBinding :=
  { b with superclass := some superclass }

def withInterface (b : TypeBinding) (i : TypeIndex) : TypeBinding :=
  { b with interfaces := b.interfaces ++ [i] }

def withModifiers (b : TypeBinding) (modifiers : List Modifier) : TypeBinding :=
  { b with modifiers := modifiers }

/-- Whether this is the type of a method that returns nothing. -/
def isVoid (b : TypeBinding) : Bool := b.isPrimitive && b.name = "void"

end TypeBinding

namespace BindingTable

def typeAt? (t : BindingTable) (i : TypeIndex) : Option TypeBinding := t.types[i]?

def methodAt? (t : BindingTable) (i : MethodIndex) : Option MethodBinding := t.methods[i]?

def variableAt? (t : BindingTable) (i : VariableIndex) : Option VariableBinding := t.vars[i]?

/-- Looks up an optional place in a list, and falls back to a hint. -/
def resolveIn (entries : List α) (index : Option Nat) (hint : β) : Resolution α β :=
  match index with
  | none => .unresolved hint
  | some i =>
    match entries[i]? with
    | some entry => .resolved i entry
    | none => .unresolved hint

def resolveType (t : BindingTable) (i : Option TypeIndex) (hint : β) : Resolution TypeBinding β :=
  resolveIn t.types i hint

def resolveMethod (t : BindingTable) (i : Option MethodIndex) (hint : β) : Resolution MethodBinding β :=
  resolveIn t.methods i hint

def resolveVariable (t : BindingTable) (i : Option VariableIndex) (hint : β) :
    Resolution VariableBinding β :=
  resolveIn t.vars i hint

/-- Adds a type at the end and returns its place. -/
def addType (t : BindingTable) (b : TypeBinding) : TypeIndex × BindingTable :=
  (t.types.length, { t with types := t.types ++ [b] })

def addMethod (t : BindingTable) (b : MethodBinding) : MethodIndex × BindingTable :=
  (t.methods.length, { t with methods := t.methods ++ [b] })

def addVariable (t : BindingTable) (b : VariableBinding) : VariableIndex × BindingTable :=
  (t.vars.length, { t with vars := t.vars ++ [b] })

end BindingTable

end Famix.Java
