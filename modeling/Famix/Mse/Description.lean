import Famix.Model.Repository
import Famix.Mse.Stanza

/-!
The description of a model: one stanza for each element, in the order in which the elements came, numbered from
one. A reference to an element that does not exist is left out.
-/
namespace Famix

namespace Repository

/-- The number of an element. -/
def number? (r : Repository) (e : Element) : Option Nat :=
  (r.order.toList.findIdx? (· = e)).map (· + 1)

/-- A property that refers to one element. -/
def reference (r : Repository) (name : String) (target : Element) : List Mse.Property :=
  match r.number? target with
  | some n => [.references name [n]]
  | none => []

/-- A property that refers to several elements. -/
def references (r : Repository) (name : String) (targets : List Element) : List Mse.Property :=
  match targets.filterMap r.number? with
  | [] => []
  | numbers => [.references name numbers]

/-- A property that refers to an element which may be absent. -/
def reference? (r : Repository) (name : String) (target : Option Element) : List Mse.Property :=
  match target with
  | some target => r.reference name target
  | none => []

end Repository

namespace NamedEntity

def modifierProperties (e : NamedEntity) : List Mse.Property :=
  match e.modifiers.members with
  | [] => []
  | modifiers => [.texts "modifiers" (modifiers.map Modifier.name)]

/-- The properties of all named entities but the name. -/
def properties (e : NamedEntity) : List Mse.Property :=
  .flag "isStub" e.isStub :: e.modifierProperties

end NamedEntity

namespace TypeKind

/-- The properties that only some kinds of types have. -/
def properties (r : Repository) (k : TypeKind) : List Mse.Property :=
  (match k.isInterface with
    | some b => [.flag "isInterface" b]
    | none => []) ++
  match k with
  | .parameterized erasure arguments =>
    r.reference? "parameterizableClass" (erasure.map (·.element)) ++
      r.references "arguments" (arguments.map (·.element))
  | _ => []

end TypeKind

namespace Repository

/-- The class and the properties of an element. -/
def describe (r : Repository) (e : Element) : String × List Mse.Property :=
  let described : Option (String × List Mse.Property) :=
    match e.kind with
    | .ns => (r.ns? ⟨e.index⟩).map fun n => ("Namespace", .text "name" n.name :: n.properties)
    | .type => (r.type? ⟨e.index⟩).map fun t =>
      (t.kind.className,
        .text "name" t.name :: r.reference "container" t.container.element ++ t.properties ++
          t.kind.properties r)
    | .method => (r.method? ⟨e.index⟩).map fun m =>
      ("Method",
        .text "name" m.name :: r.reference "parentType" m.parentType.element ++
          .text "signature" m.signature :: (m.kind.exported.map (.text "kind")).toList ++
          r.reference? "declaredType" (m.declaredType.map (·.element)) ++ m.properties)
    | .attribute => (r.attribute? ⟨e.index⟩).map fun a =>
      ("Attribute",
        .text "name" a.name :: r.reference "parentType" a.parentType.element ++
          r.reference "declaredType" a.declaredType.element ++ a.properties)
    | .parameter => (r.parameter? ⟨e.index⟩).map fun p =>
      ("Parameter",
        .text "name" p.name :: r.reference "parentBehaviouralEntity" p.parent.element ++
          r.reference "declaredType" p.declaredType.element ++ p.properties)
    | .localVariable => (r.localVariable? ⟨e.index⟩).map fun v =>
      ("LocalVariable",
        .text "name" v.name :: r.reference? "parentBehaviouralEntity" (v.parent.map (·.element)) ++
          r.reference "declaredType" v.declaredType.element ++ v.properties)
    | .inheritance => (r.inheritance? ⟨e.index⟩).map fun i =>
      ("Inheritance",
        r.reference "subclass" i.subclass.element ++ r.reference "superclass" i.superclass.element)
    | .invocation => (r.invocation? ⟨e.index⟩).map fun i =>
      ("Invocation",
        r.reference? "sender" (i.sender.map (·.element)) ++
          r.references "candidates" (i.candidates.map (·.element)) ++
          [.text "signature" i.signature])
    | .access => (r.access? ⟨e.index⟩).map fun a =>
      ("Access",
        r.reference? "accessor" (a.accessor.map (·.element)) ++
          r.reference? "variable" (a.variableRef.map (·.element)) ++ [.flag "isWrite" a.isWrite])
  described.getD ("Entity", [])

/-- One stanza for each element. -/
def stanzas (r : Repository) : List Mse.Stanza :=
  r.order.toList.zipIdx.map fun (e, i) =>
    let (className, properties) := r.describe e
    ⟨className, i + 1, properties⟩

/-- The model as MSE text. -/
def mse (r : Repository) : String := String.ofList (Mse.write r.stanzas)

end Repository

end Famix
