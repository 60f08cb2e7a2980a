import Famix.Java.Decode
import Famix.Java.Encode
import Famix.Model.Repository

/-!
Model elements as JSON, and the parts of them that can be read back.
-/
namespace Famix

open Json (Value Reader TaggedUnion)

namespace ElementId

def json (id : ElementId kind) : Value := .nat id.index

def reader : Reader (ElementId kind) := Reader.index.map ElementId.mk

end ElementId

namespace Element

def json (e : Element) : Value := .object [("kind", .text e.kind.name), ("id", .nat e.index)]

end Element

namespace Container

def reference : Json.Reference Container where
  name := "ContainerRef"
  tag := "kind"
  content := "id"
  variants := [("namespace", (.ns ⟨·⟩)), ("type", (.type ⟨·⟩)), ("method", (.method ⟨·⟩))]

end Container

namespace VariableRef

def reference : Json.Reference VariableRef where
  name := "StructuralRef"
  tag := "kind"
  content := "id"
  variants := [("attribute", (.attribute ⟨·⟩)), ("parameter", (.parameter ⟨·⟩))]

end VariableRef

namespace ModifierSet

def json (s : ModifierSet) : Value := .list Modifier.json s.members

end ModifierSet

namespace NamedEntity

def json (e : NamedEntity) : Value := .object [
  ("name", .text e.name),
  ("is_stub", .boolean e.isStub),
  ("modifiers", e.modifiers.json)]

def reader : Reader NamedEntity :=
  .record "struct NamedEntity"
    (.cons (.required "name" .text) <|
     .cons (.required "is_stub" .boolean) <|
     .cons (.required "modifiers" Modifier.reader.list) .nil)
    fun (name, isStub, modifiers, _) => ⟨name, isStub, .ofList modifiers⟩

end NamedEntity

namespace TypeKind

def json : TypeKind → Value
  | .unknown => .object [("variant", .text "opaque")]
  | .primitive => .object [("variant", .text "primitive")]
  | .classType isInterface => .object [("variant", .text "class"), ("is_interface", .boolean isInterface)]
  | .enumType => .object [("variant", .text "enum")]
  | .generic isInterface parameters => .object [
    ("variant", .text "parameterizable_class"),
    ("is_interface", .boolean isInterface),
    ("parameters", .list ElementId.json parameters)]
  | .parameterized erasure arguments => .object [
    ("variant", .text "parameterized_type"),
    ("erasure", .option ElementId.json erasure),
    ("arguments", .list ElementId.json arguments)]
  | .typeParameter => .object [("variant", .text "parameter_type")]

def union : TaggedUnion TypeKind where
  name := "TypeKind"
  tag := "variant"
  variants := [
    ("opaque", .record "unit variant TypeKind::Opaque" .nil fun _ => .unknown),
    ("primitive", .record "unit variant TypeKind::Primitive" .nil fun _ => .primitive),
    ("class", .record "struct variant TypeKind::Class"
      (.cons (.required "is_interface" .boolean) .nil)
      fun (isInterface, _) => .classType isInterface),
    ("enum", .record "unit variant TypeKind::Enum" .nil fun _ => .enumType),
    ("parameterizable_class", .record "struct variant TypeKind::ParameterizableClass"
      (.cons (.required "is_interface" .boolean) <|
       .cons (.required "parameters" ElementId.reader.list) .nil)
      fun (isInterface, parameters, _) => .generic isInterface parameters),
    ("parameterized_type", .record "struct variant TypeKind::ParameterizedType"
      (.cons (.nullable "erasure" ElementId.reader) <|
       .cons (.required "arguments" ElementId.reader.list) .nil)
      fun (erasure, arguments, _) => .parameterized erasure arguments),
    ("parameter_type", .record "unit variant TypeKind::ParameterType" .nil fun _ => .typeParameter)]

def reader : Reader TypeKind := union.reader

end TypeKind

namespace MethodKind

def name : MethodKind → String
  | .ordinary => "normal"
  | .constructor => "constructor"
  | .initializer => "initializer"

def reader : Reader MethodKind :=
  .choice ([.ordinary, .constructor, .initializer].map fun k : MethodKind => (k.name, k))

end MethodKind

def NamespaceEntity.json (n : NamespaceEntity) : Value := .object [
  ("namespace_id", n.id.json),
  ("entity", n.toNamedEntity.json)]

def TypeEntity.json (t : TypeEntity) : Value := .object [
  ("type_id", t.id.json),
  ("entity", t.toNamedEntity.json),
  ("container", t.container.element.json),
  ("kind", t.kind.json)]

def MethodEntity.json (m : MethodEntity) : Value := .object [
  ("method_id", m.id.json),
  ("entity", m.toNamedEntity.json),
  ("parent_type", m.parentType.json),
  ("signature", .text m.signature),
  ("kind", .text m.kind.name),
  ("declared_type", .option ElementId.json m.declaredType)]

def AttributeEntity.json (a : AttributeEntity) : Value := .object [
  ("attribute_id", a.id.json),
  ("entity", a.toNamedEntity.json),
  ("parent_type", a.parentType.json),
  ("declared_type", a.declaredType.json)]

def ParameterEntity.json (p : ParameterEntity) : Value := .object [
  ("parameter_id", p.id.json),
  ("entity", p.toNamedEntity.json),
  ("parent", p.parent.json),
  ("declared_type", p.declaredType.json)]

def LocalVariableEntity.json (v : LocalVariableEntity) : Value := .object [
  ("local_variable_id", v.id.json),
  ("entity", v.toNamedEntity.json),
  ("parent", .option ElementId.json v.parent),
  ("declared_type", v.declaredType.json)]

def Inheritance.json (i : Inheritance) : Value := .object [
  ("inheritance_id", i.id.json),
  ("subclass", i.subclass.json),
  ("superclass", i.superclass.json)]

def Invocation.json (i : Invocation) : Value := .object [
  ("invocation_id", i.id.json),
  ("sender", .option ElementId.json i.sender),
  ("candidates", .list ElementId.json i.candidates),
  ("signature", .text i.signature)]

def Access.json (a : Access) : Value := .object [
  ("access_id", a.id.json),
  ("accessor", .option ElementId.json a.accessor),
  ("variable", .option (·.element.json) a.variableRef),
  ("is_write", .boolean a.isWrite)]

/-- Counts by kind. -/
def Summary.json (s : Summary) : Value := .object [
  ("namespaces", .nat s.namespaces),
  ("types", .nat s.types),
  ("methods", .nat s.methods),
  ("attributes", .nat s.attributes),
  ("parameters", .nat s.parameters),
  ("local_variables", .nat s.localVariables),
  ("inheritances", .nat s.inheritances),
  ("invocations", .nat s.invocations),
  ("accesses", .nat s.accesses)]

def Summary.reader : Reader Summary :=
  .record "struct ModelSummary"
    (.cons (.required "namespaces" .count) <|
     .cons (.required "types" .count) <|
     .cons (.required "methods" .count) <|
     .cons (.required "attributes" .count) <|
     .cons (.required "parameters" .count) <|
     .cons (.required "local_variables" .count) <|
     .cons (.required "inheritances" .count) <|
     .cons (.required "invocations" .count) <|
     .cons (.required "accesses" .count) .nil)
    fun (namespaces, types, methods, attributes, parameters, localVariables, inheritances, invocations,
        accesses, _) =>
      { namespaces, types, methods, attributes, parameters, localVariables, inheritances, invocations,
        accesses }

end Famix
