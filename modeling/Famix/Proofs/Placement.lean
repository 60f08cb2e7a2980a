import Famix.Proofs.Containment

/-!
Changes that are made in their place. Such a change refers only to elements that are there, and if names are
promised to be consistent, it files an element under the name that follows from its container. Drafts changed in
this way stay sited: their containers and owners are there, and every key is the name of its element.
-/
namespace Famix

open Repository (Holds Keeps Rooted Settled)

/-- What the user of a draft promises. -/
structure Promises where
  /-- that the names of bindings and declarations are consistent -/
  named : Prop
  /-- that inheritances are made between types that are there -/
  linked : Prop

def TypeKind.references : TypeKind → List TypeId
  | .generic _ parameters => parameters
  | .parameterized erasure arguments => erasure.toList ++ arguments
  | _ => []

namespace Change

/-- The elements that a change puts into others. -/
def references : Change → List Element
  | .type _ _ container kind => container.element :: kind.references.map (·.element)
  | .method _ _ parent _ _ => [parent.element]
  | .initializer parent _ => [parent.element]
  | .field _ _ parent declared => [parent.element, declared.element]
  | .parameter _ _ parent declared => [parent.element, declared.element]
  | .localVariable _ parent declared => declared.element :: parent.toList.map (·.element)
  | .inheritance subclass superclass => [subclass.element, superclass.element]
  | .invocation sender candidate _ => candidate.element :: sender.toList.map (·.element)
  | .access accessor target => accessor.toList.map (·.element) ++ target.toList.map (·.element)
  | .typeKind _ kind => kind.references.map (·.element)
  | .methodBound _ _ declared => declared.toList.map (·.element)
  | .methodTyped _ declared => declared.toList.map (·.element)
  | _ => []

/-- What must be promised for the references of a change to be there. -/
def Relies (p : Promises) : Change → Prop
  | .inheritance _ _ => p.linked
  | _ => True

/-- A new element is filed under the name that it has in its container. -/
def Named (d : Draft) : Change → Prop
  | .type key name container _ => key = d.repository.childName container name ∧ key ≠ ""
  | .method key _ parent signature _ => key = d.repository.typeName parent ++ "." ++ signature
  | .field key name parent _ => key = d.repository.typeName parent ++ "." ++ name
  | .parameter key name parent _ => key = d.repository.methodName parent ++ "." ++ name
  | _ => True

/-- A method and a parameter are filed under their names, whatever is promised. -/
def FiledByName (d : Draft) : Change → Prop
  | .method key _ parent signature _ => key = d.repository.typeName parent ++ "." ++ signature
  | .parameter key name parent _ => key = d.repository.methodName parent ++ "." ++ name
  | _ => True

structure Proper (p : Promises) (d : Draft) (c : Change) : Prop where
  there : c.Relies p → ∀ e ∈ c.references, d.repository.Holds e
  named : p.named → c.Named d
  filed : c.FiledByName d

theorem keeps (c : Change) (d : Draft) : d.repository.Keeps (c.apply d).repository := by
  have counts := Draft.before_change c d
  have same := Keeps.refl d.repository
  have result := c.result d
  generalize c.apply d = e at counts result ⊢
  cases result with
  | known => exact same
  | space fresh => exact { same with counts, namespaces := same.namespaces.push _ }
  | type fresh => exact { same with counts, types := same.types.push _ }
  | method fresh => exact { same with counts, methods := same.methods.push _ }
  | field fresh => exact { same with counts, attributes := same.attributes.push _ }
  | parameter fresh => exact { same with counts, parameters := same.parameters.push _ }
  | direct c direct =>
    cases c with
    | space | type | method | field | parameter => cases direct
    | initializer parent modifiers => exact { same with counts, methods := same.methods.push _ }
    | localVariable | inheritance | invocation | access | written | remember => exact { same with counts }
    | typeModifiers | typeKind | typeOpened =>
      exact { same with counts, types := same.types.modify _ _ fun _ _ _ h => h }
    | typeDeclared id modifiers =>
      refine { same with counts, types := same.types.modify _ _ fun _ y _ h => ⟨?_, h.2⟩ }
      exact ((NamedEntity.Enriched.refl _).enrich modifiers).name.trans h.1
    | methodBound | methodTyped | methodDeclared =>
      exact { same with counts, methods := same.methods.modify _ _ fun _ _ _ h => h }
    | attributeDeclared id modifiers =>
      refine { same with counts, attributes := same.attributes.modify _ _ fun _ y _ h => ⟨?_, h.2⟩ }
      exact ((NamedEntity.Enriched.refl _).enrich modifiers).name.trans h.1

end Change

namespace Repository.Rooted

variable {r s : Repository}

theorem of_sizes (h : Rooted r) (keeps : r.Keeps s) (spaces : s.namespaces.size = r.namespaces.size)
    (types : s.types.size = r.types.size) (methods : s.methods.size = r.methods.size) : Rooted s := by
  apply h.keep keeps
  intro c there old
  cases c with
  | ns id => exact absurd (Nat.lt_of_lt_of_eq there spaces) old
  | type id => exact absurd (Nat.lt_of_lt_of_eq there types) old
  | method id => exact absurd (Nat.lt_of_lt_of_eq there methods) old

theorem push_namespace (h : Rooted r) (keeps : r.Keeps s) (types : s.types.size = r.types.size)
    (methods : s.methods.size = r.methods.size) : Rooted s := by
  apply h.keep keeps
  intro c there old
  cases c with
  | ns id => exact .ns (Array.getElem?_eq_getElem there)
  | type id => exact absurd (Nat.lt_of_lt_of_eq there types) old
  | method id => exact absurd (Nat.lt_of_lt_of_eq there methods) old

theorem push_type (h : Rooted r) (keeps : r.Keeps s) {t : TypeEntity} (pushed : s.types = r.types.push t)
    (spaces : s.namespaces.size = r.namespaces.size) (methods : s.methods.size = r.methods.size)
    (outer : r.Holds t.container.element) : Rooted s := by
  apply h.keep keeps
  intro c there old
  cases c with
  | ns id => exact absurd (Nat.lt_of_lt_of_eq there spaces) old
  | method id => exact absurd (Nat.lt_of_lt_of_eq there methods) old
  | type id =>
    have size : s.types.size = r.types.size + 1 := by rw [pushed, Array.size_push]
    have upper : id.index < r.types.size + 1 := Nat.lt_of_lt_of_eq there size
    have last : id.index = r.types.size := Nat.le_antisymm (Nat.le_of_lt_succ upper) (Nat.le_of_not_lt old)
    have known : s.type? id = some t := by
      rw [Repository.type?, pushed, last]
      exact Array.getElem?_push_size
    have within := ((h t.container outer).keep keeps).1
    exact .type known (within.mono (by omega))

theorem push_method (h : Rooted r) (keeps : r.Keeps s) {m : MethodEntity} (pushed : s.methods = r.methods.push m)
    (spaces : s.namespaces.size = r.namespaces.size) (types : s.types.size = r.types.size)
    (outer : r.Holds m.parentType.element) : Rooted s := by
  apply h.keep keeps
  intro c there old
  cases c with
  | ns id => exact absurd (Nat.lt_of_lt_of_eq there spaces) old
  | type id => exact absurd (Nat.lt_of_lt_of_eq there types) old
  | method id =>
    have size : s.methods.size = r.methods.size + 1 := by rw [pushed, Array.size_push]
    have upper : id.index < r.methods.size + 1 := Nat.lt_of_lt_of_eq there size
    have last : id.index = r.methods.size := Nat.le_antisymm (Nat.le_of_lt_succ upper) (Nat.le_of_not_lt old)
    have known : s.method? id = some m := by
      rw [Repository.method?, pushed, last]
      exact Array.getElem?_push_size
    have within := ((h (.type m.parentType) outer).keep keeps).1
    exact .method known (within.mono (by omega))

theorem change {p : Promises} {d : Draft} {c : Change} (h : Rooted d.repository) (proper : c.Proper p d) :
    Rooted (c.apply d).repository := by
  have keeps := c.keeps d
  have result := c.result d
  generalize c.apply d = e at keeps result ⊢
  cases result with
  | known => exact h
  | space fresh => exact h.push_namespace keeps rfl rfl
  | type fresh => exact h.push_type keeps rfl rfl rfl (proper.there trivial _ List.mem_cons_self)
  | method fresh => exact h.push_method keeps rfl rfl rfl (proper.there trivial _ List.mem_cons_self)
  | field fresh => exact h.of_sizes keeps rfl rfl rfl
  | parameter fresh => exact h.of_sizes keeps rfl rfl rfl
  | direct c direct =>
    cases c with
    | space | type | method | field | parameter => cases direct
    | initializer parent modifiers =>
      exact h.push_method keeps rfl rfl rfl (proper.there trivial parent.element List.mem_cons_self)
    | localVariable | inheritance | invocation | access | attributeDeclared | written | remember =>
      exact h.of_sizes keeps rfl rfl rfl
    | typeModifiers | typeKind | typeOpened | typeDeclared => exact h.of_sizes keeps rfl Array.size_modify rfl
    | methodBound | methodTyped | methodDeclared => exact h.of_sizes keeps rfl rfl Array.size_modify

end Repository.Rooted

def Interner.Leads (r : Repository) (t : Interner kind) : Prop :=
  ∀ key id, t.get? key = some id → r.Holds id.element

theorem Interner.Leads.keep {r s : Repository} {t : Interner kind} (h : t.Leads r) (keeps : r.Keeps s) :
    t.Leads s := fun key id known => keeps.holds (h key id known)

theorem Interner.Leads.insert {r : Repository} {t : Interner kind} (h : t.Leads r) (name : String)
    {id : ElementId kind} (there : r.Holds id.element) : (t.insert name id).Leads r := by
  intro key other known
  rw [Interner.get?_insert] at known
  split at known
  · cases known; exact there
  · exact h key other known

structure Registry.Leads (r : Repository) (g : Registry) : Prop where
  namespaces : g.namespaces.Leads r
  types : g.types.Leads r
  methods : g.methods.Leads r
  attributes : g.attributes.Leads r
  parameters : g.parameters.Leads r

theorem Registry.Leads.keep {r s : Repository} {g : Registry} (h : g.Leads r) (keeps : r.Keeps s) : g.Leads s :=
  ⟨h.namespaces.keep keeps, h.types.keep keeps, h.methods.keep keeps, h.attributes.keep keeps,
    h.parameters.keep keeps⟩

theorem Registry.Leads.change {d : Draft} (h : d.registry.Leads d.repository) (c : Change) :
    (c.apply d).registry.Leads (c.apply d).repository := by
  have kept := h.keep (c.keeps d)
  have result := c.result d
  generalize c.apply d = e at kept result ⊢
  cases result with
  | known => exact h
  | space fresh =>
    exact { kept with namespaces := kept.namespaces.insert _ (by
      simp [Holds, Repository.count, ElementId.element, Draft.addNamespace, Repository.insertNamespace]) }
  | type fresh =>
    exact { kept with types := kept.types.insert _ (by
      simp [Holds, Repository.count, ElementId.element, Draft.addType, Repository.insertType]) }
  | method fresh =>
    exact { kept with methods := kept.methods.insert _ (by
      simp [Holds, Repository.count, ElementId.element, Draft.addMethod, Repository.insertMethod]) }
  | field fresh =>
    exact { kept with attributes := kept.attributes.insert _ (by
      simp [Holds, Repository.count, ElementId.element, Draft.addAttribute, Repository.insertAttribute]) }
  | parameter fresh =>
    exact { kept with parameters := kept.parameters.insert _ (by
      simp [Holds, Repository.count, ElementId.element, Draft.addParameter, Repository.insertParameter]) }
  | direct c direct =>
    cases c with
    | space | type | method | field | parameter => cases direct
    | _ => exact kept

/-- Parameters know their place. -/
def Repository.PlacedParameters (r : Repository) : Prop :=
  ∀ (i : Nat) (q : ParameterEntity), r.parameters[i]? = some q → q.id = ⟨i⟩

theorem Repository.PlacedParameters.change {d : Draft} (h : d.repository.PlacedParameters) (c : Change) :
    (c.apply d).repository.PlacedParameters := by
  intro i q known
  rcases c.parameters_cases d with same | ⟨key, name, parent, declared, rfl, pushed⟩
  · rw [same] at known
    exact h i q known
  · rw [pushed, Array.getElem?_push] at known
    split at known
    · next last =>
      cases known
      exact congrArg ElementId.mk last.symm
    · exact h i q known

/-- The types of fields and the methods of parameters are there. -/
structure Repository.Owned (r : Repository) : Prop where
  owners : ∀ (i : Nat) (a : AttributeEntity), r.attributes[i]? = some a → r.Holds a.parentType.element
  callers : ∀ (i : Nat) (q : ParameterEntity), r.parameters[i]? = some q → r.Holds q.parent.element

theorem Repository.Owned.owners_change {p : Promises} {d : Draft} {c : Change} (h : d.repository.Owned)
    (proper : c.Proper p d) (i : Nat) (a : AttributeEntity)
    (known : (c.apply d).repository.attributes[i]? = some a) : d.repository.Holds a.parentType.element := by
  rcases c.attributes_cases d with same | ⟨key, name, parent, declared, rfl, pushed⟩ | ⟨id, modifiers, _, modified⟩
  · rw [same] at known
    exact h.owners i a known
  · rw [pushed, Array.getElem?_push] at known
    split at known
    · cases known
      exact proper.there trivial _ List.mem_cons_self
    · exact h.owners i a known
  · rw [modified, Array.getElem?_modify] at known
    split at known
    · obtain ⟨b, at_i, rfl⟩ := Option.map_eq_some_iff.mp known
      exact h.owners i b at_i
    · exact h.owners i a known

theorem Repository.Owned.callers_change {p : Promises} {d : Draft} {c : Change} (h : d.repository.Owned)
    (proper : c.Proper p d) (i : Nat) (q : ParameterEntity)
    (known : (c.apply d).repository.parameters[i]? = some q) : d.repository.Holds q.parent.element := by
  rcases c.parameters_cases d with same | ⟨key, name, parent, declared, rfl, pushed⟩
  · rw [same] at known
    exact h.callers i q known
  · rw [pushed, Array.getElem?_push] at known
    split at known
    · cases known
      exact proper.there trivial _ List.mem_cons_self
    · exact h.callers i q known

theorem Repository.Owned.change {p : Promises} {d : Draft} {c : Change} (h : d.repository.Owned)
    (proper : c.Proper p d) : (c.apply d).repository.Owned where
  owners i a known := (c.keeps d).holds (h.owners_change proper i a known)
  callers i q known := (c.keeps d).holds (h.callers_change proper i q known)

namespace Draft

/-- Containers are there, those that are open and those around what is there, and what the keys lead to. -/
structure Sited (d : Draft) : Prop where
  rooted : d.repository.Rooted
  opened : ∀ c ∈ d.scope.frames, d.repository.Holds c.element
  known : d.registry.Leads d.repository
  placed : d.repository.PlacedParameters

theorem Sited.change {p : Promises} {d : Draft} {c : Change} (h : Sited d) (proper : c.Proper p d) :
    Sited (c.apply d) where
  rooted := h.rooted.change proper
  opened := by
    rw [c.apply_scope]
    exact fun x mem => (c.keeps d).holds (h.opened x mem)
  known := h.known.change c
  placed := h.placed.change c

end Draft

end Famix
