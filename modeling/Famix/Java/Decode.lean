import Famix.Java.Tree
import Famix.Json.TaggedUnion

/-!
Projects read from JSON. Most fields may be missing, and then stand for nothing: no binding, an empty list, a
class. The four kinds of nodes that contain each other are read by readers that allow for so many nodes inside
each other; no text has more than its nesting allows.
-/
namespace Famix

open Json (Reader TaggedUnion)

namespace Modifier

def reader : Reader Modifier := .choice (all.map fun m => (m.name, m))

end Modifier

namespace Java

def VariableKind.reader : Reader VariableKind :=
  .choice [("field", .field), ("parameter", .parameter), ("local", .localVariable)]

def DeclarationKind.reader : Reader DeclarationKind :=
  .choice [("class", .classType), ("interface", .interfaceType), ("enum", .enumType)]

def TypeBinding.reader : Reader TypeBinding :=
  .record "struct TypeBinding"
    (.cons (.required "qualified_name" .text) <|
     .cons (.required "name" .text) <|
     .cons (.optional "package" .text) <|
     .cons (.optional "declaring_class" .index) <|
     .cons (.list "modifiers" Modifier.reader) <|
     .cons (.flag "is_primitive") <|
     .cons (.flag "is_parameterized") <|
     .cons (.flag "is_generic") <|
     .cons (.flag "is_enum") <|
     .cons (.flag "is_interface") <|
     .cons (.optional "superclass" .index) <|
     .cons (.list "interfaces" .index) <|
     .cons (.optional "erasure" .index) <|
     .cons (.list "type_arguments" .index) <|
     .cons (.list "type_parameters" .text) .nil)
    fun (qualifiedName, name, package, declaringClass, modifiers, isPrimitive, isParameterized, isGeneric,
        isEnum, isInterface, superclass, interfaces, erasure, typeArguments, typeParameters, _) =>
      { qualifiedName, name, package, declaringClass, modifiers, isPrimitive, isParameterized, isGeneric,
        isEnum, isInterface, superclass, interfaces, erasure, typeArguments, typeParameters }

def MethodBinding.reader : Reader MethodBinding :=
  .record "struct MethodBinding"
    (.cons (.required "name" .text) <|
     .cons (.optional "declaring_class" .index) <|
     .cons (.list "parameter_types" .index) <|
     .cons (.optional "return_type" .index) <|
     .cons (.flag "is_constructor") <|
     .cons (.list "modifiers" Modifier.reader) .nil)
    fun (name, declaringClass, parameterTypes, returnType, isConstructor, modifiers, _) =>
      { name, declaringClass, parameterTypes, returnType, isConstructor, modifiers }

def VariableBinding.reader : Reader VariableBinding :=
  .record "struct VariableBinding"
    (.cons (.required "name" .text) <|
     .cons (.required "kind" VariableKind.reader) <|
     .cons (.optional "declaring_class" .index) <|
     .cons (.optional "type" .index) <|
     .cons (.list "modifiers" Modifier.reader) .nil)
    fun (name, kind, declaringClass, type, modifiers, _) =>
      { name, kind, declaringClass, type, modifiers }

def BindingTable.reader : Reader BindingTable :=
  .record "struct BindingTable"
    (.cons (.list "types" TypeBinding.reader) <|
     .cons (.list "methods" MethodBinding.reader) <|
     .cons (.list "variables" VariableBinding.reader) .nil)
    fun (types, methods, vars, _) => { types, methods, vars }

/-- Readers of the nodes that contain each other. -/
structure NodeReaders where
  typeExpr : Reader TypeExpr
  expr : Reader Expr
  statement : Reader Statement
  member : Reader Member

namespace NodeReaders

variable (r : NodeReaders)

def typeRef : Reader TypeRef :=
  .record "struct TypeRef"
    (.cons (.required "syntax" r.typeExpr) <|
     .cons (.optional "binding" .index) .nil)
    fun (written, binding, _) => { written, binding }

def fragment : Reader Fragment :=
  .record "struct VariableFragment"
    (.cons (.required "name" .text) <|
     .cons (.optional "binding" .index) <|
     .cons (.optional "initializer" r.expr) .nil)
    fun (name, binding, initial, _) => { name, binding, initial }

def parameterDecl : Reader ParameterDecl :=
  .record "struct SingleVariableDeclaration"
    (.cons (.required "name" .text) <|
     .cons (.required "type" r.typeRef) <|
     .cons (.optional "binding" .index) .nil)
    fun (name, type, binding, _) => { name, type, binding }

def anonymousClass : Reader AnonymousClass :=
  .record "struct AnonymousClassDeclaration"
    (.cons (.optional "binding" .index) <|
     .cons (.list "body" r.member) .nil)
    fun (binding, body, _) => { binding, body }

def fieldDecl : Reader FieldDecl :=
  .record "struct FieldDeclaration"
    (.cons (.required "type" r.typeRef) <|
     .cons (.list "modifiers" Modifier.reader) <|
     .cons (.required "fragments" r.fragment.list) .nil)
    fun (type, modifiers, fragments, _) => { type, modifiers, fragments }

def methodDecl : Reader MethodDecl :=
  .record "struct MethodDeclaration"
    (.cons (.required "name" .text) <|
     .cons (.optional "binding" .index) <|
     .cons (.flag "is_constructor") <|
     .cons (.optional "return_type" r.typeRef) <|
     .cons (.list "parameters" r.parameterDecl) <|
     .cons (.list "modifiers" Modifier.reader) <|
     .cons (.list "body" r.statement) .nil)
    fun (name, binding, isConstructor, returnType, parameters, modifiers, body, _) =>
      { name, binding, isConstructor, returnType, parameters, modifiers, body }

def initializerDecl : Reader InitializerDecl :=
  .record "struct Initializer"
    (.cons (.flag "is_static") <|
     .cons (.list "body" r.statement) .nil)
    fun (isStatic, body, _) => { isStatic, body }

def typeDecl : Reader TypeDecl :=
  .record "struct TypeDeclaration"
    (.cons (.required "name" .text) <|
     .cons (.withDefault "kind" DeclarationKind.reader .classType) <|
     .cons (.optional "binding" .index) <|
     .cons (.list "modifiers" Modifier.reader) <|
     .cons (.optional "superclass" r.typeRef) <|
     .cons (.list "interfaces" r.typeRef) <|
     .cons (.list "body" r.member) .nil)
    fun (name, kind, binding, modifiers, superclass, interfaces, body, _) =>
      { name, kind, binding, modifiers, superclass, interfaces, body }

/-- Types around those that `r` reads. -/
def typeUnion : TaggedUnion TypeExpr where
  name := "TypeSyntax"
  tag := "kind"
  variants := [
    ("primitive", .record "struct variant TypeSyntax::Primitive"
      (.cons (.required "name" .text) .nil)
      fun (name, _) => .primitive name),
    ("simple", .record "struct variant TypeSyntax::Simple"
      (.cons (.required "name" .text) .nil)
      fun (name, _) => .simple name),
    ("parameterized", .record "struct variant TypeSyntax::Parameterized"
      (.cons (.required "base" r.typeExpr) <|
       .cons (.list "arguments" r.typeExpr) .nil)
      fun (base, arguments, _) => .parameterized base arguments),
    ("array", .record "struct variant TypeSyntax::Array"
      (.cons (.required "element" r.typeExpr) <|
       .cons (.withDefault "dimensions" .index 1) .nil)
      fun (element, dimensions, _) => .array element dimensions),
    ("wildcard", .record "struct variant TypeSyntax::Wildcard"
      (.cons (.optional "bound" r.typeExpr) <|
       .cons (.withDefault "upper" .boolean true) .nil)
      fun (bound, upper, _) => .wildcard bound upper)]

/-- Expressions around those that `r` reads. -/
def exprUnion : TaggedUnion Expr where
  name := "Expression"
  tag := "kind"
  variants := [
    ("name", .record "struct variant Expression::Name"
      (.cons (.required "identifier" .text) <|
       .cons (.optional "binding" .index) .nil)
      fun (identifier, binding, _) => .name identifier binding),
    ("literal", .record "struct variant Expression::Literal"
      (.cons (.required "text" .text) .nil)
      fun (text, _) => .literal text),
    ("assignment", .record "struct variant Expression::Assignment"
      (.cons (.required "target" r.expr) <|
       .cons (.required "value" r.expr) .nil)
      fun (target, value, _) => .assignment target value),
    ("method_invocation", .record "struct variant Expression::MethodInvocation"
      (.cons (.optional "receiver" r.expr) <|
       .cons (.required "name" .text) <|
       .cons (.list "arguments" r.expr) <|
       .cons (.optional "binding" .index) .nil)
      fun (receiver, name, arguments, binding, _) => .invocation receiver name arguments binding),
    ("class_instance_creation", .record "struct variant Expression::ClassInstanceCreation"
      (.cons (.required "type" r.typeRef) <|
       .cons (.list "arguments" r.expr) <|
       .cons (.optional "binding" .index) <|
       .cons (.optional "anonymous" r.anonymousClass) .nil)
      fun (type, arguments, binding, anonymous, _) => .creation type arguments binding anonymous),
    ("other", .record "struct variant Expression::Other"
      (.cons (.required "text" .text) .nil)
      fun (text, _) => .other text)]

/-- Statements around those that `r` reads. -/
def statementUnion : TaggedUnion Statement where
  name := "Statement"
  tag := "kind"
  variants := [
    ("local_variable", .record "struct variant Statement::LocalVariable"
      (.cons (.required "type" r.typeRef) <|
       .cons (.required "fragments" r.fragment.list) .nil)
      fun (type, fragments, _) => .localVariable type fragments),
    ("expression", .record "struct variant Statement::Expression"
      (.cons (.required "expression" r.expr) .nil)
      fun (e, _) => .expression e),
    ("return", .record "struct variant Statement::Return"
      (.cons (.optional "value" r.expr) .nil)
      fun (value, _) => .returned value),
    ("block", .record "struct variant Statement::Block"
      (.cons (.list "statements" r.statement) .nil)
      fun (statements, _) => .block statements)]

/-- Members of a body around those that `r` reads. -/
def memberUnion : TaggedUnion Member where
  name := "BodyDeclaration"
  tag := "kind"
  variants := [
    ("field", r.fieldDecl.map .field),
    ("method", r.methodDecl.map .method),
    ("initializer", r.initializerDecl.map .initializer),
    ("type", r.typeDecl.map .type)]

/-- Readers that allow for one node more than `r` does. -/
def around : NodeReaders where
  typeExpr := r.typeUnion.reader
  expr := r.exprUnion.reader
  statement := r.statementUnion.reader
  member := r.memberUnion.reader

/-- Readers that allow for no node at all. -/
def none : NodeReaders where
  typeExpr := .refuse .tooDeep
  expr := .refuse .tooDeep
  statement := .refuse .tooDeep
  member := .refuse .tooDeep

/-- Readers that allow for so many nodes inside each other. -/
def allowing : Nat → NodeReaders
  | 0 => none
  | n + 1 => (allowing n).around

end NodeReaders

/-- Readers for every text that keeps to the nesting limit. -/
def nodes : NodeReaders := .allowing Json.nestingLimit

def packageReader : Reader String :=
  .record "struct PackageDeclaration" (.cons (.required "name" .text) .nil) fun (name, _) => name

def CompilationUnit.reader : Reader CompilationUnit :=
  .record "struct CompilationUnit"
    (.cons (.optional "path" .text) <|
     .cons (.optional "package" packageReader) <|
     .cons (.list "types" nodes.typeDecl) .nil)
    fun (path, package, types, _) => { path, package, types }

def Project.reader : Reader Project :=
  .record "struct Project"
    (.cons (.withDefault "bindings" BindingTable.reader {}) <|
     .cons (.list "units" CompilationUnit.reader) .nil)
    fun (bindings, units, _) => { bindings, units }

/-- The project a text describes. -/
def Project.parse (text : String) : Except Json.Error Project := Project.reader.parse text

end Java

end Famix
