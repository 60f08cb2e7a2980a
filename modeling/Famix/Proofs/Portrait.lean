import Famix.Proofs.Order

/-!
What is said of an element, before elements are numbered. A stanza is a portrait in which every reference is replaced
by the number of its target.
-/
namespace Famix

def Modifier.word : Modifier → String
  | .publicAccess => "public"
  | .protectedAccess => "protected"
  | .privateAccess => "private"
  | .packageAccess => "package"
  | .final => "final"
  | .abstract => "abstract"
  | .native => "native"
  | .synchronized => "synchronized"
  | .transient => "transient"
  | .volatile => "volatile"
  | .static => "static"

theorem Modifier.name_eq (m : Modifier) : m.name = m.word := by
  cases m <;> rfl

inductive Feature where
  | text (name value : String)
  | flag (name : String) (value : Bool)
  | modifiers (members : List Modifier)
  | references (name : String) (targets : List Element)
  deriving DecidableEq, Repr

namespace Feature

/-- How a feature is written. One that has nothing left to say is left out. -/
def properties (number? : Element → Option Nat) : Feature → List Mse.Property
  | .text name value => [.text name value]
  | .flag name value => [.flag name value]
  | .modifiers members => if members = [] then [] else [.texts "modifiers" (members.map Modifier.word)]
  | .references name targets =>
    if targets.filterMap number? = [] then [] else [.references name (targets.filterMap number?)]

@[simp] theorem properties_text (number? : Element → Option Nat) (name value : String) :
    (text name value).properties number? = [.text name value] := rfl

@[simp] theorem properties_flag (number? : Element → Option Nat) (name : String) (value : Bool) :
    (flag name value).properties number? = [.flag name value] := rfl

end Feature

structure Portrait where
  className : String
  features : List Feature
  deriving DecidableEq, Repr

/-- The stanza of an element with this number, where the others are numbered by `number?`. -/
def Portrait.stanza (number? : Element → Option Nat) (p : Portrait) (number : Nat) : Mse.Stanza :=
  ⟨p.className, number, p.features.flatMap (·.properties number?)⟩

def NamedEntity.features (e : NamedEntity) : List Feature :=
  [.flag "isStub" e.isStub, .modifiers e.modifiers.members]

/-- The FAMIX class of a type. -/
def TypeKind.title : TypeKind → String
  | .unknown => "Type"
  | .primitive => "PrimitiveType"
  | .classType _ => "Class"
  | .enumType => "Enum"
  | .generic .. => "ParameterizableClass"
  | .parameterized .. => "ParameterizedType"
  | .typeParameter => "ParameterType"

theorem TypeKind.className_eq (k : TypeKind) : k.className = k.title := by
  cases k <;> rfl

def TypeKind.features : TypeKind → List Feature
  | .classType isInterface | .generic isInterface _ => [.flag "isInterface" isInterface]
  | .parameterized erasure arguments =>
    [.references "parameterizableClass" (erasure.toList.map (·.element)),
      .references "arguments" (arguments.map (·.element))]
  | .unknown | .primitive | .enumType | .typeParameter => []

def MethodKind.features : MethodKind → List Feature
  | .ordinary => []
  | .constructor => [.text "kind" "constructor"]
  | .initializer => [.text "kind" "initializer"]

def NamespaceEntity.portrait (n : NamespaceEntity) : Portrait :=
  ⟨"Namespace", .text "name" n.name :: n.features⟩

def TypeEntity.portrait (t : TypeEntity) : Portrait :=
  ⟨t.kind.title,
    .text "name" t.name :: .references "container" [t.container.element] :: (t.features ++ t.kind.features)⟩

def MethodEntity.portrait (m : MethodEntity) : Portrait :=
  ⟨"Method",
    .text "name" m.name :: .references "parentType" [m.parentType.element] :: .text "signature" m.signature ::
      (m.kind.features ++
        .references "declaredType" (m.declaredType.toList.map (·.element)) :: m.features)⟩

def AttributeEntity.portrait (a : AttributeEntity) : Portrait :=
  ⟨"Attribute",
    .text "name" a.name :: .references "parentType" [a.parentType.element] ::
      .references "declaredType" [a.declaredType.element] :: a.features⟩

def ParameterEntity.portrait (p : ParameterEntity) : Portrait :=
  ⟨"Parameter",
    .text "name" p.name :: .references "parentBehaviouralEntity" [p.parent.element] ::
      .references "declaredType" [p.declaredType.element] :: p.features⟩

def LocalVariableEntity.portrait (v : LocalVariableEntity) : Portrait :=
  ⟨"LocalVariable",
    .text "name" v.name :: .references "parentBehaviouralEntity" (v.parent.toList.map (·.element)) ::
      .references "declaredType" [v.declaredType.element] :: v.features⟩

def Inheritance.portrait (i : Inheritance) : Portrait :=
  ⟨"Inheritance",
    [.references "subclass" [i.subclass.element], .references "superclass" [i.superclass.element]]⟩

def Invocation.portrait (i : Invocation) : Portrait :=
  ⟨"Invocation",
    [.references "sender" (i.sender.toList.map (·.element)),
      .references "candidates" (i.candidates.map (·.element)), .text "signature" i.signature]⟩

def Access.portrait (a : Access) : Portrait :=
  ⟨"Access",
    [.references "accessor" (a.accessor.toList.map (·.element)),
      .references "variable" (a.variableRef.toList.map (·.element)), .flag "isWrite" a.isWrite]⟩

namespace Repository

/-- The portrait of an element, if it is there. -/
def portrait? (r : Repository) (e : Element) : Option Portrait :=
  match e.kind with
  | .ns => (r.ns? ⟨e.index⟩).map (·.portrait)
  | .type => (r.type? ⟨e.index⟩).map (·.portrait)
  | .method => (r.method? ⟨e.index⟩).map (·.portrait)
  | .attribute => (r.attribute? ⟨e.index⟩).map (·.portrait)
  | .parameter => (r.parameter? ⟨e.index⟩).map (·.portrait)
  | .localVariable => (r.localVariable? ⟨e.index⟩).map (·.portrait)
  | .inheritance => (r.inheritance? ⟨e.index⟩).map (·.portrait)
  | .invocation => (r.invocation? ⟨e.index⟩).map (·.portrait)
  | .access => (r.access? ⟨e.index⟩).map (·.portrait)

theorem portrait?_of_holds {r : Repository} {e : Element} (there : r.Holds e) : ∃ p, r.portrait? e = some p := by
  obtain ⟨kind, index⟩ := e
  cases kind <;>
    exact ⟨_, Option.map_eq_some_iff.mpr ⟨_, Array.getElem?_eq_getElem there, rfl⟩⟩

theorem reference_eq (r : Repository) (name : String) (target : Element) :
    r.reference name target = (Feature.references name [target]).properties r.number? := by
  unfold reference Feature.properties
  cases found : r.number? target <;> simp [found]

theorem references_eq (r : Repository) (name : String) (targets : List Element) :
    r.references name targets = (Feature.references name targets).properties r.number? := by
  unfold references Feature.properties
  cases found : targets.filterMap r.number? <;> simp [found]

theorem reference?_eq {α : Type} (r : Repository) (name : String) (element : α → Element) (target : Option α) :
    r.reference? name (target.map element) =
      (Feature.references name (target.toList.map element)).properties r.number? := by
  cases target with
  | none => simp [reference?, Feature.properties]
  | some target => exact r.reference_eq name (element target)

theorem properties_eq (r : Repository) (e : NamedEntity) :
    e.properties = e.features.flatMap (·.properties r.number?) := by
  unfold NamedEntity.properties NamedEntity.modifierProperties NamedEntity.features
  cases listed : e.modifiers.members <;> simp [Feature.properties, Modifier.name_eq]

theorem typeKind_properties_eq (r : Repository) (k : TypeKind) :
    k.properties r = k.features.flatMap (·.properties r.number?) := by
  cases k with
  | parameterized erasure arguments =>
    simp [TypeKind.properties, TypeKind.features, TypeKind.isInterface, reference?_eq, references_eq]
  | _ => simp [TypeKind.properties, TypeKind.features, TypeKind.isInterface, Feature.properties]

/-- An element is described by its portrait. -/
theorem describe_of_portrait {r : Repository} {e : Element} {p : Portrait} (known : r.portrait? e = some p) :
    r.describe e = (p.className, p.features.flatMap (·.properties r.number?)) := by
  obtain ⟨kind, index⟩ := e
  cases kind <;> obtain ⟨x, found, rfl⟩ := Option.map_eq_some_iff.mp known <;>
    simp only [describe, found, Option.map_some, Option.getD_some]
  case ns => simp [NamespaceEntity.portrait, properties_eq r]
  case type => simp [TypeEntity.portrait, TypeKind.className_eq, reference_eq, properties_eq r, typeKind_properties_eq]
  case method =>
    cases kind : x.kind <;>
      simp [MethodEntity.portrait, MethodKind.exported, MethodKind.features, kind, reference_eq, reference?_eq,
        properties_eq r]
  case «attribute» => simp [AttributeEntity.portrait, reference_eq, properties_eq r]
  case parameter => simp [ParameterEntity.portrait, reference_eq, properties_eq r]
  case localVariable => simp [LocalVariableEntity.portrait, reference_eq, reference?_eq, properties_eq r]
  case inheritance => simp [Inheritance.portrait, reference_eq]
  case invocation => simp [Invocation.portrait, reference?_eq, references_eq]
  case access => simp [Access.portrait, reference?_eq]

end Repository

end Famix
