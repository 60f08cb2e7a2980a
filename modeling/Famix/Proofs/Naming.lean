import Famix.Proofs.Placement

/-!
Keys are names. Where a change files every new element under the name that it has in its container, each key of
the registry stays the qualified name of the element it leads to.
-/
namespace Famix

open Repository (Holds Keeps Rooted)

theorem joinName_of_ne {outer : String} (h : outer ≠ "") (name : String) :
    joinName outer name = outer ++ "." ++ name := by
  unfold joinName
  split
  · next empty => exact absurd (String.isEmpty_iff.mp empty) h
  · rfl

theorem append_dot_ne (outer name : String) : outer ++ "." ++ name ≠ "" := by
  intro h
  have := congrArg String.length h
  simp [String.length_append] at this

def Interner.Names (name : ElementId kind → String) (t : Interner kind) : Prop :=
  ∀ key id, t.get? key = some id → name id = key

namespace Interner.Names

variable {t : Interner kind} {f g : ElementId kind → String}

theorem keep (h : t.Names f) (same : ∀ key id, t.get? key = some id → g id = f id) : t.Names g :=
  fun key id known => (same key id known).trans (h key id known)

theorem insert (h : t.Names f) {key : String} {id : ElementId kind} (new : f id = key) :
    (t.insert key id).Names f := by
  intro other found known
  rw [Interner.get?_insert] at known
  split at known
  · next same => cases known; exact new.trans same.symm
  · exact h other found known

end Interner.Names

/-- Every key is the qualified name of the element it leads to. -/
structure Registry.Names (r : Repository) (g : Registry) : Prop where
  namespaces : g.namespaces.Names r.namespaceName
  types : g.types.Names r.typeName
  methods : g.methods.Names r.methodName
  attributes : g.attributes.Names r.attributeName
  parameters : g.parameters.Names r.parameterName

namespace Repository

theorem namespaceName_eq {r : Repository} {id : NamespaceId} {n : NamespaceEntity} (known : r.ns? id = some n) :
    r.namespaceName id = n.name := by
  simp only [namespaceName, containerName, containerNameWithin, known]

theorem childName_type {r : Repository} {id : TypeId} {key : String} (named : r.typeName id = key)
    (nonempty : key ≠ "") (name : String) : r.childName (.type id) name = key ++ "." ++ name := by
  rw [← joinName_of_ne nonempty, ← named]
  rfl

theorem attributeName_eq {r : Repository} {id : AttributeId} {a : AttributeEntity}
    (known : r.attribute? id = some a) : r.attributeName id = joinName (r.typeName a.parentType) a.name := by
  simp only [attributeName, known]

theorem parameterName_eq {r : Repository} {id : ParameterId} {q : ParameterEntity}
    (known : r.parameter? id = some q) : r.parameterName id = joinName (r.methodName q.parent) q.name := by
  simp only [parameterName, known]

end Repository

namespace Draft

/-- Types have names that are not empty, and every key is a name. -/
structure Named (d : Draft) : Prop where
  owned : d.repository.Owned
  nonempty : ∀ id : TypeId, d.repository.Holds id.element → d.repository.typeName id ≠ ""
  keys : d.registry.Names d.repository

theorem Sited.attributeName_keep {d : Draft} (h : Sited d) (owned : d.repository.Owned) {s : Repository}
    (keeps : d.repository.Keeps s) {id : AttributeId} (there : d.repository.Holds id.element) :
    s.attributeName id = d.repository.attributeName id := by
  have known : d.repository.attribute? id = some _ := Array.getElem?_eq_getElem there
  obtain ⟨b, kept, name, parent⟩ := keeps.attributes id.index _ known
  have owner := owned.owners id.index _ known
  rw [Repository.attributeName_eq kept, Repository.attributeName_eq known, name, parent,
    h.rooted.typeName_keep keeps owner]

theorem Sited.parameterName_keep {d : Draft} (h : Sited d) (owned : d.repository.Owned) {s : Repository}
    (keeps : d.repository.Keeps s) {id : ParameterId} (there : d.repository.Holds id.element) :
    s.parameterName id = d.repository.parameterName id := by
  have known : d.repository.parameter? id = some _ := Array.getElem?_eq_getElem there
  obtain ⟨b, kept, same⟩ := keeps.parameters id.index _ known
  have caller := owned.callers id.index _ known
  rw [Repository.parameterName_eq kept, Repository.parameterName_eq known, ← same,
    h.rooted.methodName_keep keeps caller]

theorem Named.keys_keep {d : Draft} (named : Named d) (h : Sited d) {s : Repository}
    (keeps : d.repository.Keeps s) : d.registry.Names s where
  namespaces := named.keys.namespaces.keep fun key id known =>
    h.rooted.containerName_keep keeps (h.known.namespaces key id known)
  types := named.keys.types.keep fun key id known => h.rooted.typeName_keep keeps (h.known.types key id known)
  methods := named.keys.methods.keep fun key id known => h.rooted.methodName_keep keeps (h.known.methods key id known)
  attributes := named.keys.attributes.keep fun key id known =>
    h.attributeName_keep named.owned keeps (h.known.attributes key id known)
  parameters := named.keys.parameters.keep fun key id known =>
    h.parameterName_keep named.owned keeps (h.known.parameters key id known)

theorem Named.nonempty_keep {d : Draft} (h : Named d) (sited : Sited d) {s : Repository}
    (keeps : d.repository.Keeps s) (same : s.types.size = d.repository.types.size) (id : TypeId)
    (there : s.Holds id.element) : s.typeName id ≠ "" := by
  have old : d.repository.Holds id.element := Nat.lt_of_lt_of_eq there same
  rw [sited.rooted.typeName_keep keeps old]
  exact h.nonempty id old

section Added

variable {d : Draft} {key name signature : String} {container : Container} {kind : TypeKind} {parent declared : TypeId}

theorem Sited.typeName_added (h : Sited d) {fresh : d.registry.types.get? key = none}
    (outer : d.repository.Holds container.element)
    (keeps : d.repository.Keeps (d.addType key name container kind fresh).repository)
    (rooted : (d.addType key name container kind fresh).repository.Rooted) :
    (d.addType key name container kind fresh).repository.typeName ⟨d.repository.types.size⟩ =
      d.repository.childName container name := by
  have known : (d.addType key name container kind fresh).repository.type? ⟨d.repository.types.size⟩ =
      some { NamedEntity.stub name with id := ⟨d.repository.types.size⟩, container, kind } := Array.getElem?_push_size
  rw [rooted.typeName_eq known, h.rooted.containerName_keep keeps outer]
  rfl

theorem Sited.methodName_added {entity : NamedEntity} {kind : MethodKind} (h : Sited d) (named : Named d)
    (outer : d.repository.Holds parent.element)
    (keeps : d.repository.Keeps (d.addMethod key entity parent signature kind).repository)
    (rooted : (d.addMethod key entity parent signature kind).repository.Rooted) :
    (d.addMethod key entity parent signature kind).repository.methodName ⟨d.repository.methods.size⟩ =
      d.repository.typeName parent ++ "." ++ signature := by
  have known : (d.addMethod key entity parent signature kind).repository.method? ⟨d.repository.methods.size⟩ =
      some { entity with id := ⟨d.repository.methods.size⟩, parentType := parent, signature, kind } :=
    Array.getElem?_push_size
  rw [rooted.methodName_eq known, h.rooted.typeName_keep keeps outer,
    joinName_of_ne (named.nonempty parent outer)]

theorem Sited.attributeName_added (h : Sited d) (named : Named d) (outer : d.repository.Holds parent.element)
    (keeps : d.repository.Keeps (d.addAttribute key (.stub name) parent declared).repository) :
    (d.addAttribute key (.stub name) parent declared).repository.attributeName ⟨d.repository.attributes.size⟩ =
      d.repository.typeName parent ++ "." ++ name := by
  have known : (d.addAttribute key (.stub name) parent declared).repository.attribute?
      ⟨d.repository.attributes.size⟩ = some { NamedEntity.stub name with
        id := ⟨d.repository.attributes.size⟩, parentType := parent, declaredType := declared } :=
    Array.getElem?_push_size
  rw [Repository.attributeName_eq known, h.rooted.typeName_keep keeps outer,
    joinName_of_ne (named.nonempty parent outer)]
  rfl

theorem Sited.methodName_ne (h : Sited d) (named : Named d) {id : MethodId}
    (there : d.repository.Holds id.element) : d.repository.methodName id ≠ "" := by
  obtain ⟨m, known⟩ := there.method
  rw [h.rooted.methodName_eq known, joinName_of_ne (named.nonempty _ (h.rooted.method_parent known).holds)]
  exact append_dot_ne _ _

theorem Sited.parameterName_added {entity : NamedEntity} {method : MethodId} (h : Sited d) (named : Named d)
    (outer : d.repository.Holds method.element)
    (keeps : d.repository.Keeps (d.addParameter key entity method declared).repository) :
    (d.addParameter key entity method declared).repository.parameterName ⟨d.repository.parameters.size⟩ =
      d.repository.methodName method ++ "." ++ entity.name := by
  have known : (d.addParameter key entity method declared).repository.parameter?
      ⟨d.repository.parameters.size⟩ = some { entity with
        id := ⟨d.repository.parameters.size⟩, parent := method, declaredType := declared } :=
    Array.getElem?_push_size
  rw [Repository.parameterName_eq known, h.rooted.methodName_keep keeps outer,
    joinName_of_ne (h.methodName_ne named outer)]

end Added

theorem Named.change {p : Promises} {d : Draft} {c : Change} (h : Named d) (sited : Sited d)
    (proper : c.Proper p d) (promised : p.named) : Named (c.apply d) := by
  have keeps := c.keeps d
  have rooted := (sited.change proper).rooted
  have names := h.keys_keep sited keeps
  have owned := h.owned.change proper
  have filed := proper.named promised
  have result := c.result d
  generalize c.apply d = e at keeps rooted names owned result ⊢
  cases result with
  | known => exact h
  | @space name fresh =>
    have known : (d.addNamespace name fresh).repository.ns? ⟨d.repository.namespaces.size⟩ =
        some { NamedEntity.stub name with id := ⟨d.repository.namespaces.size⟩ } := Array.getElem?_push_size
    have new : (d.addNamespace name fresh).repository.namespaceName ⟨d.repository.namespaces.size⟩ = name :=
      Repository.namespaceName_eq known
    exact ⟨owned, h.nonempty_keep sited keeps rfl, { names with namespaces := names.namespaces.insert new }⟩
  | @type key own container kind fresh =>
    have outer : d.repository.Holds container.element := proper.there trivial _ List.mem_cons_self
    have new := (sited.typeName_added outer keeps rooted).trans filed.1.symm
    refine ⟨owned, fun id there => ?_, { names with types := names.types.insert new }⟩
    -- an empty name would take the dot from the names of its members
    by_cases old : d.repository.Holds id.element
    · rw [sited.rooted.typeName_keep keeps old]
      exact h.nonempty id old
    · have upper : id.index < d.repository.types.size + 1 := Nat.lt_of_lt_of_eq there (Array.size_push _)
      have last : id = ⟨d.repository.types.size⟩ := congrArg ElementId.mk
        (Nat.le_antisymm (Nat.le_of_lt_succ upper) (Nat.le_of_not_lt old))
      rw [last, new]
      exact filed.2
  | @method key own signature parent isConstructor fresh =>
    have outer : d.repository.Holds parent.element := proper.there trivial _ List.mem_cons_self
    have new := (sited.methodName_added h outer keeps rooted).trans filed.symm
    exact ⟨owned, h.nonempty_keep sited keeps rfl, { names with methods := names.methods.insert new }⟩
  | @field key own parent declared fresh =>
    have outer : d.repository.Holds parent.element := proper.there trivial _ List.mem_cons_self
    have new := (sited.attributeName_added h outer keeps).trans filed.symm
    exact ⟨owned, h.nonempty_keep sited keeps rfl, { names with attributes := names.attributes.insert new }⟩
  | @parameter key own parent declared fresh =>
    have outer : d.repository.Holds parent.element := proper.there trivial _ List.mem_cons_self
    have new := (sited.parameterName_added h outer keeps).trans filed.symm
    exact ⟨owned, h.nonempty_keep sited keeps rfl, { names with parameters := names.parameters.insert new }⟩
  | direct c direct =>
    cases c with
    | space | type | method | field | parameter => cases direct
    | typeModifiers | typeKind | typeOpened | typeDeclared =>
      exact ⟨owned, h.nonempty_keep sited keeps Array.size_modify, names⟩
    | _ => exact ⟨owned, h.nonempty_keep sited keeps rfl, names⟩

end Draft

end Famix
