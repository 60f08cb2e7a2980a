import Famix.Draft.Basic

/-!
What interning does. A key that is known leads to its element and nothing changes; under a new key the next
element of its kind is inserted and registered. The unknown namespace and the unknown type are remembered besides;
as what is remembered is what is registered, they are found as if they were looked up each time.
-/
namespace Famix

/-- What a draft can remember. -/
inductive Unknown where
  | space
  | type

/-- What is remembered in `u` is remembered in `v`. -/
structure Unknowns.Extends (u v : Unknowns) : Prop where
  space : ∀ id, u.space = some id → v.space = some id
  type : ∀ id, u.type = some id → v.type = some id

namespace Unknowns.Extends

theorem refl (u : Unknowns) : u.Extends u := ⟨fun _ => id, fun _ => id⟩

theorem trans {u v w : Unknowns} (h : u.Extends v) (k : v.Extends w) : u.Extends w :=
  ⟨fun id known => k.space id (h.space id known), fun id known => k.type id (h.type id known)⟩

end Unknowns.Extends

namespace Draft

def addNamespace (name : String) (d : Draft) (fresh : d.registry.namespaces.get? name = none) : Draft where
  repository := (d.repository.insertNamespace (.stub name)).2
  registry := { d.registry with namespaces := d.registry.namespaces.insert name ⟨d.repository.namespaces.size⟩ }
  scope := d.scope
  unknowns := d.unknowns
  filed := d.filed.extend (Interner.extends_insert fresh _) (.refl _)

def addType (key name : String) (container : Container) (kind : TypeKind) (d : Draft)
    (fresh : d.registry.types.get? key = none) : Draft where
  repository := (d.repository.insertType (.stub name) container kind).2
  registry := { d.registry with types := d.registry.types.insert key ⟨d.repository.types.size⟩ }
  scope := d.scope
  unknowns := d.unknowns
  filed := d.filed.extend (.refl _) (Interner.extends_insert fresh _)

def addMethod (key : String) (entity : NamedEntity) (parent : TypeId) (signature : String) (kind : MethodKind)
    (d : Draft) : Draft where
  repository := (d.repository.insertMethod entity parent signature kind none).2
  registry := { d.registry with methods := d.registry.methods.insert key ⟨d.repository.methods.size⟩ }
  scope := d.scope
  unknowns := d.unknowns
  filed := d.filed

def addAttribute (key : String) (entity : NamedEntity) (parent declared : TypeId) (d : Draft) : Draft where
  repository := (d.repository.insertAttribute entity parent declared).2
  registry := { d.registry with attributes := d.registry.attributes.insert key ⟨d.repository.attributes.size⟩ }
  scope := d.scope
  unknowns := d.unknowns
  filed := d.filed

def addParameter (key : String) (entity : NamedEntity) (parent : MethodId) (declared : TypeId) (d : Draft) :
    Draft where
  repository := (d.repository.insertParameter entity parent declared).2
  registry := { d.registry with parameters := d.registry.parameters.insert key ⟨d.repository.parameters.size⟩ }
  scope := d.scope
  unknowns := d.unknowns
  filed := d.filed

variable {key name signature : String} {entity : NamedEntity} {d : Draft}

theorem ensureNamespace_of_some {id : NamespaceId} (known : d.registry.namespaces.get? name = some id) :
    ensureNamespace name d = (id, d) := by
  simp only [ensureNamespace, Interner.ensure, known]
  rfl

theorem ensureNamespace_of_none (fresh : d.registry.namespaces.get? name = none) :
    ensureNamespace name d = (⟨d.repository.namespaces.size⟩, d.addNamespace name fresh) := by
  simp only [ensureNamespace, Interner.ensure, fresh]
  rfl

theorem internType_of_some {container : Container} {kind : TypeKind} {id : TypeId}
    (known : d.registry.types.get? key = some id) :
    internType key name container kind d = (.existing id, d) := by
  simp only [internType, Interner.ensure, known]
  rfl

theorem internType_of_none {container : Container} {kind : TypeKind}
    (fresh : d.registry.types.get? key = none) :
    internType key name container kind d =
      (.created ⟨d.repository.types.size⟩, d.addType key name container kind fresh) := by
  simp only [internType, Interner.ensure, fresh]
  rfl

theorem internMethod_of_some {parent : TypeId} {kind : MethodKind} {id : MethodId}
    (known : d.registry.methods.get? key = some id) :
    internMethod key entity parent signature kind d = (.existing id, d) := by
  simp only [internMethod, Interner.ensure, known]
  rfl

theorem internMethod_of_none {parent : TypeId} {kind : MethodKind}
    (fresh : d.registry.methods.get? key = none) :
    internMethod key entity parent signature kind d =
      (.created ⟨d.repository.methods.size⟩, d.addMethod key entity parent signature kind) := by
  simp only [internMethod, Interner.ensure, fresh]
  rfl

theorem internAttribute_of_some {parent declared : TypeId} {id : AttributeId}
    (known : d.registry.attributes.get? key = some id) :
    internAttribute key entity parent declared d = (id, d) := by
  simp only [internAttribute, Interner.ensure, known]
  rfl

theorem internAttribute_of_none {parent declared : TypeId} (fresh : d.registry.attributes.get? key = none) :
    internAttribute key entity parent declared d =
      (⟨d.repository.attributes.size⟩, d.addAttribute key entity parent declared) := by
  simp only [internAttribute, Interner.ensure, fresh]
  rfl

theorem internParameter_of_some {parent : MethodId} {declared : TypeId} {id : ParameterId}
    (known : d.registry.parameters.get? key = some id) :
    internParameter key entity parent declared d = (id, d) := by
  simp only [internParameter, Interner.ensure, known]
  rfl

theorem internParameter_of_none {parent : MethodId} {declared : TypeId}
    (fresh : d.registry.parameters.get? key = none) :
    internParameter key entity parent declared d =
      (⟨d.repository.parameters.size⟩, d.addParameter key entity parent declared) := by
  simp only [internParameter, Interner.ensure, fresh]
  rfl

theorem internType_existing {container : Container} {kind : TypeKind} {id : TypeId}
    (h : (internType key name container kind d).1 = .existing id) :
    d.registry.types.get? key = some id ∧ (internType key name container kind d).2 = d := by
  cases known : d.registry.types.get? key with
  | some other =>
    rw [internType_of_some known] at h ⊢
    cases h
    exact ⟨rfl, rfl⟩
  | none => rw [internType_of_none known] at h; cases h

theorem internType_created {container : Container} {kind : TypeKind} {id : TypeId}
    (h : (internType key name container kind d).1 = .created id) :
    d.registry.types.get? key = none ∧ id = ⟨d.repository.types.size⟩ := by
  cases known : d.registry.types.get? key with
  | some other => rw [internType_of_some known] at h; cases h
  | none =>
    rw [internType_of_none known] at h
    cases h
    exact ⟨rfl, rfl⟩

/-! What is remembered. -/

/-- What is remembered when it is filled in from the registry. -/
def remembering (d : Draft) : Unknown → Unknowns
  | .space => { d.unknowns with space := d.registry.namespaces.get? unknownName }
  | .type =>
    if d.unknowns.space.isSome then
      { d.unknowns with type := d.registry.types.get? (unknownKey unknownName) }
    else d.unknowns

theorem filed_remembering (d : Draft) (u : Unknown) :
    (d.remembering u).Filed d.registry.namespaces d.registry.types := by
  cases u with
  | space =>
    refine ⟨fun _ => id, d.filed.type, fun remembered => ?_⟩
    obtain ⟨id, known⟩ := Option.isSome_iff_exists.mp (d.filed.both remembered)
    exact Option.isSome_of_eq_some (d.filed.space id known)
  | type =>
    dsimp only [remembering]
    split
    · next space => exact ⟨d.filed.space, fun _ => id, fun _ => space⟩
    · exact d.filed

def remember (u : Unknown) (d : Draft) : Draft := { d with unknowns := d.remembering u, filed := d.filed_remembering u }

theorem extends_remembering (d : Draft) (u : Unknown) : d.unknowns.Extends (d.remembering u) := by
  cases u with
  | space => exact ⟨d.filed.space, fun _ => id⟩
  | type =>
    dsimp only [remembering]
    split
    · exact ⟨fun _ => id, d.filed.type⟩
    · exact .refl _

theorem remember_of_eq {u : Unknown} (same : d.remembering u = d.unknowns) : d.remember u = d := by
  obtain ⟨repository, registry, scope, unknowns, filed⟩ := d
  unfold remember
  simp only [same]

theorem remembering_space {id : NamespaceId} (known : d.registry.namespaces.get? unknownName = some id) :
    d.remembering .space = { d.unknowns with space := some id } := by
  unfold remembering
  rw [known]

theorem remembering_type {id : TypeId} (known : d.registry.types.get? (unknownKey unknownName) = some id)
    (space : d.unknowns.space.isSome) : d.remembering .type = { d.unknowns with type := some id } := by
  unfold remembering
  rw [if_pos space, known]

/-- Remembered or not, the unknown namespace is the one that its name leads to. -/
theorem unknownNamespace_eq (d : Draft) : unknownNamespace d =
    ((ensureNamespace unknownName d).1, (ensureNamespace unknownName d).2.remember .space) := by
  unfold unknownNamespace
  split
  · next id remembered =>
    have known := d.filed.space id remembered
    have same : d.remembering .space = d.unknowns := by rw [remembering_space known, ← remembered]
    rw [ensureNamespace_of_some known, remember_of_eq same]
  · have known := ensureNamespace_registers unknownName d
    simp only [remember, remembering_space known]

/-- A namespace is made without a type or a supertype. -/
theorem unknownNamespace_types (d : Draft) :
    (unknownNamespace d).2.repository.types = d.repository.types ∧
      (unknownNamespace d).2.repository.supertypesByType = d.repository.supertypesByType := by
  rw [unknownNamespace_eq]
  cases known : d.registry.namespaces.get? unknownName with
  | some space => rw [ensureNamespace_of_some known]; exact ⟨rfl, rfl⟩
  | none => rw [ensureNamespace_of_none known]; exact ⟨rfl, rfl⟩

theorem unknownNamespace_of_remembered {id : NamespaceId} (remembered : d.unknowns.space = some id) :
    unknownNamespace d = (id, d) := by
  unfold unknownNamespace
  rw [remembered]

/-- Remembered or not, the unknown type is the one that its key leads to. -/
theorem unknownType_eq (d : Draft) : unknownType d =
    ((unknownTypeNamed unknownName d).1, (unknownTypeNamed unknownName d).2.remember .type) := by
  unfold unknownType
  split
  · next id remembered =>
    have space := d.filed.both (Option.isSome_of_eq_some remembered)
    obtain ⟨outer, there⟩ := Option.isSome_iff_exists.mp space
    have known := d.filed.type id remembered
    have found : unknownTypeNamed unknownName d = (id, d) := by
      change ((internType _ _ _ _ (unknownNamespace d).2).1.id, (internType _ _ _ _ (unknownNamespace d).2).2) = _
      rw [unknownNamespace_of_remembered there, internType_of_some known]
      rfl
    have same : d.remembering .type = d.unknowns := by rw [remembering_type known space, ← remembered]
    rw [found, remember_of_eq same]
  · have known := unknownTypeNamed_registers unknownName d
    have space : (unknownTypeNamed unknownName d).2.unknowns.space.isSome :=
      Option.isSome_of_eq_some (unknownNamespace_remembers d)
    simp only [remember, remembering_type known space]

theorem unknownType_of_remembered {id : TypeId} (remembered : d.unknowns.type = some id) :
    unknownType d = (id, d) := by
  unfold unknownType
  rw [remembered]

theorem unknownType_remembers (d : Draft) : (unknownType d).2.unknowns.type = some (unknownType d).1 := by
  unfold unknownType
  split
  · next known => exact known
  · rfl

theorem unknownNamespace_registers (d : Draft) :
    (unknownNamespace d).2.registry.namespaces.get? unknownName = some (unknownNamespace d).1 :=
  (unknownNamespace d).2.filed.space _ (unknownNamespace_remembers d)

theorem unknownType_registers (d : Draft) :
    (unknownType d).2.registry.types.get? (unknownKey unknownName) = some (unknownType d).1 :=
  (unknownType d).2.filed.type _ (unknownType_remembers d)

end Draft

end Famix
