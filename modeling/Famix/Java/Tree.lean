import Famix.Java.Binding

/-!
Declaration trees of Java source files. Where the source names something, a node may carry the place of its
binding; the written form is always there.
-/
namespace Famix.Java

/-- A type as written. -/
inductive TypeExpr where
  | primitive (name : String)
  | simple (name : String)
  | parameterized (base : TypeExpr) (arguments : List TypeExpr)
  | array (element : TypeExpr) (dimensions : Nat)
  /-- a wildcard; `upper` tells `extends` from `super` -/
  | wildcard (bound : Option TypeExpr) (upper : Bool)
  deriving Repr

/-- A reference to a type: its written form, and its binding when it has one. -/
structure TypeRef where
  written : TypeExpr
  binding : Option TypeIndex := none
  deriving Repr

inductive DeclarationKind where
  | classType
  | interfaceType
  | enumType
  deriving DecidableEq, Repr

/-- A formal parameter. -/
structure ParameterDecl where
  name : String
  type : TypeRef
  binding : Option VariableIndex := none
  deriving Repr

mutual
inductive Expr where
  | name (identifier : String) (binding : Option VariableIndex)
  | literal (text : String)
  | assignment (target value : Expr)
  | invocation (receiver : Option Expr) (name : String) (arguments : List Expr)
      (binding : Option MethodIndex)
  | creation (type : TypeRef) (arguments : List Expr) (binding : Option MethodIndex)
      (anonymous : Option AnonymousClass)
  /-- any other expression, as text -/
  | other (text : String)

/-- One variable of a field or local variable declaration. -/
structure Fragment where
  name : String
  binding : Option VariableIndex
  initial : Option Expr

inductive Statement where
  | localVariable (type : TypeRef) (fragments : List Fragment)
  | expression (e : Expr)
  | returned (value : Option Expr)
  | block (statements : List Statement)

/-- The body of a class that is declared where it is instantiated. -/
structure AnonymousClass where
  binding : Option TypeIndex
  body : List Member

structure FieldDecl where
  type : TypeRef
  modifiers : List Modifier
  fragments : List Fragment

structure MethodDecl where
  name : String
  binding : Option MethodIndex
  isConstructor : Bool
  returnType : Option TypeRef
  parameters : List ParameterDecl
  modifiers : List Modifier
  body : List Statement

structure InitializerDecl where
  isStatic : Bool
  body : List Statement

structure TypeDecl where
  name : String
  kind : DeclarationKind
  binding : Option TypeIndex
  modifiers : List Modifier
  superclass : Option TypeRef
  interfaces : List TypeRef
  body : List Member

/-- What can stand in the body of a type. -/
inductive Member where
  | field (d : FieldDecl)
  | method (d : MethodDecl)
  | initializer (d : InitializerDecl)
  | type (d : TypeDecl)
end

/-- The types of one source file, and the package it declares. -/
structure CompilationUnit where
  path : Option String := none
  package : Option String := none
  types : List TypeDecl := []

/-- A table of bindings and the source files that refer to it. -/
structure Project where
  bindings : BindingTable := {}
  units : List CompilationUnit := []

namespace Project

/-- Whether nothing at all is in the project. -/
def isEmpty (p : Project) : Bool :=
  p.bindings.types.isEmpty && p.bindings.methods.isEmpty && p.bindings.vars.isEmpty &&
    p.units.isEmpty

end Project

end Famix.Java
