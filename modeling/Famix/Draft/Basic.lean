import Famix.Java.Binding
import Famix.Model.Interner
import Famix.Model.QualifiedName
import Famix.Model.Scope

/-!
A model under construction: what was found so far, under which names it can be found again, and which containers
are open. The unknown namespace and the unknown type, which are asked for most, are remembered besides.
-/
namespace Famix

/-- How a field that is known only from its declaration is filed: each under its own name, or all fields of a type
under the name of the type. -/
inductive AttributeKeying where
  | keyed
  | legacy
  deriving DecidableEq, Repr

/-- What a construction goes by, and never changes. -/
structure Context where
  bindings : Java.BindingTable := {}
  keying : AttributeKeying := .keyed

/-- The unknown namespace and the unknown type, as soon as they have been asked for. -/
structure Unknowns where
  space : Option NamespaceId := none
  type : Option TypeId := none
  deriving DecidableEq, Repr

/-- What is remembered is what the names lead to, and the type is not remembered without its namespace. -/
structure Unknowns.Filed (u : Unknowns) (namespaces : Interner .ns) (types : Interner .type) : Prop where
  space : ∀ id, u.space = some id → namespaces.get? unknownName = some id
  type : ∀ id, u.type = some id → types.get? (unknownKey unknownName) = some id
  both : u.type.isSome → u.space.isSome

namespace Unknowns.Filed

variable {u : Unknowns} {namespaces spaces : Interner .ns} {types others : Interner .type}

theorem nothing : ({} : Unknowns).Filed {} {} := ⟨nofun, nofun, nofun⟩

theorem extend (h : u.Filed namespaces types) (more : namespaces.Extends spaces) (further : types.Extends others) :
    u.Filed spaces others :=
  ⟨fun id known => more _ id (h.space id known), fun id known => further _ id (h.type id known), h.both⟩

theorem withSpace (h : u.Filed namespaces types) {id : NamespaceId} (known : namespaces.get? unknownName = some id) :
    { u with space := some id }.Filed namespaces types :=
  ⟨fun _ same => Option.some.inj same ▸ known, h.type, fun _ => rfl⟩

theorem withType (h : u.Filed namespaces types) {id : TypeId}
    (known : types.get? (unknownKey unknownName) = some id) (space : u.space.isSome) :
    { u with type := some id }.Filed namespaces types :=
  ⟨h.space, fun _ same => Option.some.inj same ▸ known, fun _ => space⟩

end Unknowns.Filed

structure Draft where
  repository : Repository := {}
  registry : Registry := {}
  scope : Scope := {}
  unknowns : Unknowns := {}
  filed : unknowns.Filed registry.namespaces registry.types := by exact .nothing
  deriving Repr

/-- A step of a construction. -/
abbrev Drafting := StateM Draft

namespace Draft

def enter (c : Container) : Drafting Unit :=
  modify fun d => { d with scope := d.scope.push c }

/-- Leaves the innermost container. -/
def leave : Drafting (Option Container) := fun d =>
  let (c, scope) := d.scope.pop
  (c, { d with scope })

def currentMethod : Drafting (Option MethodId) := do
  return (← get).scope.currentMethod

/-- The type that a declaration in the current scope belongs to. -/
def ownerType (d : Draft) : Option TypeId :=
  match d.scope.current with
  | some (.type id) => some id
  | some (.method id) => (d.repository.method? id).map (·.parentType)
  | _ => none

/-- Changes the repository alone. -/
def edit (f : Repository → Repository) (d : Draft) : Draft :=
  { d with repository := f d.repository }

@[simp] theorem registry_edit (f : Repository → Repository) (d : Draft) :
    (d.edit f).registry = d.registry := rfl

/-- Inserts an association, or anything else that cannot be found again by a name. -/
def insert (allocate : Repository → α × Repository) : Drafting α := fun d =>
  let (a, repository) := allocate d.repository
  (a, { d with repository })

/-- The namespace with this name. -/
def ensureNamespace (name : String) : Drafting NamespaceId := fun d =>
  let allocate : StateM Repository NamespaceId := Repository.insertNamespace (.stub name)
  let found := d.registry.namespaces.ensure name allocate d.repository
  (found.1.1.id, { d with
    repository := found.2
    registry := { d.registry with namespaces := found.1.2 }
    filed := d.filed.extend (Interner.extends_ensure _ _ _ _) (.refl _) })

theorem ensureNamespace_registers (name : String) (d : Draft) :
    (ensureNamespace name d).2.registry.namespaces.get? name = some (ensureNamespace name d).1 :=
  Interner.get?_ensure ..

/-- The namespace of everything whose package is not known. It is remembered when it is first asked for. -/
def unknownNamespace : Drafting NamespaceId := fun d =>
  match d.unknowns.space with
  | some id => (id, d)
  | none =>
    let found := ensureNamespace unknownName d
    (found.1, { found.2 with
      unknowns := { found.2.unknowns with space := some found.1 }
      filed := found.2.filed.withSpace (ensureNamespace_registers unknownName d) })

/-- The type with this key, made as a stub if there is none. -/
def internType (key name : String) (container : Container) (kind : TypeKind) :
    Drafting (Ensured .type) := fun d =>
  let allocate : StateM Repository TypeId := Repository.insertType (.stub name) container kind
  let found := d.registry.types.ensure key allocate d.repository
  (found.1.1, { d with
    repository := found.2
    registry := { d.registry with types := found.1.2 }
    filed := d.filed.extend (.refl _) (Interner.extends_ensure _ _ _ _) })

/-- After interning, the key leads to the type returned. -/
theorem internType_registers (key name : String) (container : Container) (kind : TypeKind) (d : Draft) :
    (internType key name container kind d).2.registry.types.get? key =
      some (internType key name container kind d).1.id := Interner.get?_ensure ..

def internMethod (key : String) (entity : NamedEntity) (parentType : TypeId) (signature : String)
    (kind : MethodKind) : Drafting (Ensured .method) := fun d =>
  let allocate : StateM Repository MethodId := Repository.insertMethod entity parentType signature kind none
  let ((ensured, methods), repository) := d.registry.methods.ensure key allocate d.repository
  (ensured, { d with repository, registry := { d.registry with methods } })

def internAttribute (key : String) (entity : NamedEntity) (parentType declaredType : TypeId) :
    Drafting AttributeId := fun d =>
  let allocate : StateM Repository AttributeId :=
    Repository.insertAttribute entity parentType declaredType
  let ((ensured, attributes), repository) := d.registry.attributes.ensure key allocate d.repository
  (ensured.id, { d with repository, registry := { d.registry with attributes } })

def internParameter (key : String) (entity : NamedEntity) (parent : MethodId) (declaredType : TypeId) :
    Drafting ParameterId := fun d =>
  let allocate : StateM Repository ParameterId := Repository.insertParameter entity parent declaredType
  let ((ensured, parameters), repository) := d.registry.parameters.ensure key allocate d.repository
  (ensured.id, { d with repository, registry := { d.registry with parameters } })

/-- The type of this name under the unknown namespace. -/
def unknownTypeNamed (name : String) : Drafting TypeId := do
  let space ← unknownNamespace
  let ensured ← internType (unknownKey name) name (.ns space) .unknown
  return ensured.id

theorem unknownTypeNamed_registers (name : String) (d : Draft) :
    (unknownTypeNamed name d).2.registry.types.get? (unknownKey name) = some (unknownTypeNamed name d).1 :=
  internType_registers ..

theorem unknownNamespace_remembers (d : Draft) :
    (unknownNamespace d).2.unknowns.space = some (unknownNamespace d).1 := by
  unfold unknownNamespace
  split
  · next known => exact known
  · rfl

/-- The type of which nothing is known. It is remembered when it is first asked for. -/
def unknownType : Drafting TypeId := fun d =>
  match d.unknowns.type with
  | some id => (id, d)
  | none =>
    let found := unknownTypeNamed unknownName d
    (found.1, { found.2 with
      unknowns := { found.2.unknowns with type := some found.1 }
      filed := found.2.filed.withType (unknownTypeNamed_registers unknownName d)
        (Option.isSome_of_eq_some (unknownNamespace_remembers d)) })

/-- Every type key of `d` leads to the same type in `e`. -/
def KeepsTypes (d e : Draft) : Prop := d.registry.types.Extends e.registry.types

namespace KeepsTypes

theorem refl (d : Draft) : KeepsTypes d d := Interner.Extends.refl _

theorem trans {d e f : Draft} (h : KeepsTypes d e) (k : KeepsTypes e f) : KeepsTypes d f :=
  Interner.Extends.trans h k

end KeepsTypes

@[simp] theorem ensureNamespace_types (name : String) (d : Draft) :
    (ensureNamespace name d).2.registry.types = d.registry.types := rfl

theorem internType_keeps (key name : String) (container : Container) (kind : TypeKind) (d : Draft) :
    KeepsTypes d (internType key name container kind d).2 :=
  Interner.extends_ensure _ _ _ _

theorem unknownNamespace_typeKeys (d : Draft) : (unknownNamespace d).2.registry.types = d.registry.types := by
  unfold unknownNamespace
  split
  all_goals rfl

theorem unknownTypeNamed_keeps (name : String) (d : Draft) : KeepsTypes d (unknownTypeNamed name d).2 := by
  have kept := internType_keeps (unknownKey name) name (.ns (unknownNamespace d).1) .unknown
    (unknownNamespace d).2
  unfold KeepsTypes at kept
  rw [unknownNamespace_typeKeys] at kept
  exact kept

theorem unknownType_keeps (d : Draft) : KeepsTypes d (unknownType d).2 := by
  unfold unknownType
  split
  · exact .refl d
  · exact unknownTypeNamed_keeps unknownName d

end Draft

end Famix
