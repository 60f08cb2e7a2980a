import Famix.Java.Tree
import Famix.Json.Writer

/-!
Projects as JSON. Every field is written, in its declared order, also one that is empty or absent. A member of a
type body starts with its tag; a member type then states its own kind under the same name.
-/
namespace Famix

open Json (Value)

namespace Modifier

def json (m : Modifier) : Value := .text m.name

end Modifier

namespace Java

def VariableKind.name : VariableKind → String
  | .field => "field"
  | .parameter => "parameter"
  | .localVariable => "local"

def DeclarationKind.name : DeclarationKind → String
  | .classType => "class"
  | .interfaceType => "interface"
  | .enumType => "enum"

def TypeBinding.json (b : TypeBinding) : Value := .object [
  ("qualified_name", .text b.qualifiedName),
  ("name", .text b.name),
  ("package", .option .text b.package),
  ("declaring_class", .option .nat b.declaringClass),
  ("modifiers", .list Modifier.json b.modifiers),
  ("is_primitive", .boolean b.isPrimitive),
  ("is_parameterized", .boolean b.isParameterized),
  ("is_generic", .boolean b.isGeneric),
  ("is_enum", .boolean b.isEnum),
  ("is_interface", .boolean b.isInterface),
  ("superclass", .option .nat b.superclass),
  ("interfaces", .list .nat b.interfaces),
  ("erasure", .option .nat b.erasure),
  ("type_arguments", .list .nat b.typeArguments),
  ("type_parameters", .list .text b.typeParameters)]

def MethodBinding.json (b : MethodBinding) : Value := .object [
  ("name", .text b.name),
  ("declaring_class", .option .nat b.declaringClass),
  ("parameter_types", .list .nat b.parameterTypes),
  ("return_type", .option .nat b.returnType),
  ("is_constructor", .boolean b.isConstructor),
  ("modifiers", .list Modifier.json b.modifiers)]

def VariableBinding.json (b : VariableBinding) : Value := .object [
  ("name", .text b.name),
  ("kind", .text b.kind.name),
  ("declaring_class", .option .nat b.declaringClass),
  ("type", .option .nat b.type),
  ("modifiers", .list Modifier.json b.modifiers)]

def BindingTable.json (t : BindingTable) : Value := .object [
  ("types", .list TypeBinding.json t.types),
  ("methods", .list MethodBinding.json t.methods),
  ("variables", .list VariableBinding.json t.vars)]

namespace TypeExpr

mutual
def json : TypeExpr → Value
  | .primitive name => .object [("kind", .text "primitive"), ("name", .text name)]
  | .simple name => .object [("kind", .text "simple"), ("name", .text name)]
  | .parameterized base arguments =>
    .object [("kind", .text "parameterized"), ("base", base.json), ("arguments", .array (jsonList arguments))]
  | .array element dimensions =>
    .object [("kind", .text "array"), ("element", element.json), ("dimensions", .nat dimensions)]
  | .wildcard bound upper =>
    .object [("kind", .text "wildcard"), ("bound", jsonOption bound), ("upper", .boolean upper)]

def jsonList : List TypeExpr → List Value
  | [] => []
  | t :: rest => t.json :: jsonList rest

def jsonOption : Option TypeExpr → Value
  | none => .null
  | some t => t.json
end

end TypeExpr

def TypeRef.json (t : TypeRef) : Value := .object [
  ("syntax", t.written.json),
  ("binding", .option .nat t.binding)]

def ParameterDecl.json (d : ParameterDecl) : Value := .object [
  ("name", .text d.name),
  ("type", d.type.json),
  ("binding", .option .nat d.binding)]

mutual
def Expr.json : Expr → Value
  | .name identifier binding => .object [
    ("kind", .text "name"),
    ("identifier", .text identifier),
    ("binding", .option .nat binding)]
  | .literal text => .object [("kind", .text "literal"), ("text", .text text)]
  | .assignment target value => .object [
    ("kind", .text "assignment"),
    ("target", target.json),
    ("value", value.json)]
  | .invocation receiver name arguments binding => .object [
    ("kind", .text "method_invocation"),
    ("receiver", Expr.jsonOption receiver),
    ("name", .text name),
    ("arguments", .array (Expr.jsonList arguments)),
    ("binding", .option .nat binding)]
  | .creation type arguments binding anonymous => .object [
    ("kind", .text "class_instance_creation"),
    ("type", type.json),
    ("arguments", .array (Expr.jsonList arguments)),
    ("binding", .option .nat binding),
    ("anonymous", AnonymousClass.jsonOption anonymous)]
  | .other text => .object [("kind", .text "other"), ("text", .text text)]

def Expr.jsonList : List Expr → List Value
  | [] => []
  | e :: rest => e.json :: Expr.jsonList rest

def Expr.jsonOption : Option Expr → Value
  | none => .null
  | some e => e.json

def Fragment.json : Fragment → Value
  | { name, binding, initial } => .object [
    ("name", .text name),
    ("binding", .option .nat binding),
    ("initializer", Expr.jsonOption initial)]

def Fragment.jsonList : List Fragment → List Value
  | [] => []
  | f :: rest => f.json :: Fragment.jsonList rest

def Statement.json : Statement → Value
  | .localVariable type fragments => .object [
    ("kind", .text "local_variable"),
    ("type", type.json),
    ("fragments", .array (Fragment.jsonList fragments))]
  | .expression e => .object [("kind", .text "expression"), ("expression", e.json)]
  | .returned value => .object [("kind", .text "return"), ("value", Expr.jsonOption value)]
  | .block statements => .object [
    ("kind", .text "block"),
    ("statements", .array (Statement.jsonList statements))]

def Statement.jsonList : List Statement → List Value
  | [] => []
  | s :: rest => s.json :: Statement.jsonList rest

def AnonymousClass.json : AnonymousClass → Value
  | { binding, body } => .object [
    ("binding", .option .nat binding),
    ("body", .array (Member.jsonList body))]

def AnonymousClass.jsonOption : Option AnonymousClass → Value
  | none => .null
  | some a => a.json

def FieldDecl.fields : FieldDecl → List (String × Value)
  | { type, modifiers, fragments } => [
    ("type", type.json),
    ("modifiers", .list Modifier.json modifiers),
    ("fragments", .array (Fragment.jsonList fragments))]

def MethodDecl.fields : MethodDecl → List (String × Value)
  | { name, binding, isConstructor, returnType, parameters, modifiers, body } => [
    ("name", .text name),
    ("binding", .option .nat binding),
    ("is_constructor", .boolean isConstructor),
    ("return_type", .option TypeRef.json returnType),
    ("parameters", .list ParameterDecl.json parameters),
    ("modifiers", .list Modifier.json modifiers),
    ("body", .array (Statement.jsonList body))]

def InitializerDecl.fields : InitializerDecl → List (String × Value)
  | { isStatic, body } => [
    ("is_static", .boolean isStatic),
    ("body", .array (Statement.jsonList body))]

def TypeDecl.fields : TypeDecl → List (String × Value)
  | { name, kind, binding, modifiers, superclass, interfaces, body } => [
    ("name", .text name),
    ("kind", .text kind.name),
    ("binding", .option .nat binding),
    ("modifiers", .list Modifier.json modifiers),
    ("superclass", .option TypeRef.json superclass),
    ("interfaces", .list TypeRef.json interfaces),
    ("body", .array (Member.jsonList body))]

def Member.json : Member → Value
  | .field d => .object (("kind", .text "field") :: d.fields)
  | .method d => .object (("kind", .text "method") :: d.fields)
  | .initializer d => .object (("kind", .text "initializer") :: d.fields)
  | .type d => .object (("kind", .text "type") :: d.fields)

def Member.jsonList : List Member → List Value
  | [] => []
  | m :: rest => m.json :: Member.jsonList rest
end

def TypeDecl.json (d : TypeDecl) : Value := .object d.fields

def packageJson (name : String) : Value := .object [("name", .text name)]

def CompilationUnit.json (u : CompilationUnit) : Value := .object [
  ("path", .option .text u.path),
  ("package", .option packageJson u.package),
  ("types", .list TypeDecl.json u.types)]

def Project.json (p : Project) : Value := .object [
  ("bindings", p.bindings.json),
  ("units", .list CompilationUnit.json p.units)]

end Java

end Famix
