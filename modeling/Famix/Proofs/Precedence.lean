import Famix.Proofs.Itinerary
import Famix.Proofs.Order

/-!
Containment is well founded. An element is inserted after whatever it is contained in, so that the way outwards from
container to container goes back in the order of insertion and comes to an end. Names are found on that way.
-/
namespace Famix

open Draft (Sound)

/-- What a new element is contained in. -/
def Insertion.owner? : Insertion → Option Element
  | .type _ container _ => some container.element
  | .method _ parentType _ _ _ => some parentType.element
  | .attribute _ parentType _ => some parentType.element
  | .parameter _ parent _ => some parent.element
  | _ => none

namespace Repository

/-- What an element is contained in: the container of a type, the parent type of a method or an attribute, the parent
method of a parameter. -/
def owner? (r : Repository) (e : Element) : Option Element :=
  match e.kind with
  | .type => (r.type? ⟨e.index⟩).map (·.container.element)
  | .method => (r.method? ⟨e.index⟩).map (·.parentType.element)
  | .attribute => (r.attribute? ⟨e.index⟩).map (·.parentType.element)
  | .parameter => (r.parameter? ⟨e.index⟩).map (·.parent.element)
  | _ => none

def Precedes (r : Repository) (a b : Element) : Prop :=
  ∃ i j : Nat, i < j ∧ r.order[i]? = some a ∧ r.order[j]? = some b

/-- Every element is listed once in the order, after what it is contained in. -/
structure Layered (r : Repository) : Prop where
  filed : r.Filed
  before : ∀ e owner, r.owner? e = some owner → r.Precedes owner e

variable {r : Repository}

theorem map_getElem?_push (xs : Array α) (x : α) (f : α → β) (i : Nat) :
    (xs.push x)[i]?.map f = if i = xs.size then some (f x) else xs[i]?.map f := by
  rw [Array.getElem?_push]
  split <;> rfl

theorem map_getElem?_modify (xs : Array α) (j : Nat) (f : α → α) (g : α → β) (kept : ∀ x, g (f x) = g x) (i : Nat) :
    (xs.modify j f)[i]?.map g = xs[i]?.map g := by
  rw [Array.getElem?_modify]
  split
  · rw [Option.map_map]
    exact congrArg (Option.map · _) (funext kept)
  · rfl

theorem owner?_insert (i : Insertion) (r : Repository) (e : Element) :
    (i.apply r).owner? e = if e = ⟨i.kind, r.count i.kind⟩ then i.owner? else r.owner? e := by
  obtain ⟨kind, index⟩ := e
  -- only an insertion of the same kind shows, and it shows at the end of the store
  cases i <;> cases kind <;> simp [owner?, Insertion.apply, Insertion.kind, Insertion.owner?, count, type?, method?,
    attribute?, parameter?, insertNamespace, insertType, insertMethod, insertAttribute, insertParameter,
    insertLocalVariable, insertInheritance, insertInvocation, insertAccess, map_getElem?_push]

theorem owner?_updateType (id : TypeId) (f : TypeEntity → TypeEntity) (kept : ∀ t, (f t).container = t.container)
    (e : Element) : (r.updateType id f).owner? e = r.owner? e := by
  obtain ⟨kind, index⟩ := e
  cases kind with
  | type => exact map_getElem?_modify r.types id.index f (·.container.element) (by simp [kept]) index
  | _ => rfl

theorem owner?_updateMethod (id : MethodId) (f : MethodEntity → MethodEntity)
    (kept : ∀ m, (f m).parentType = m.parentType) (e : Element) : (r.updateMethod id f).owner? e = r.owner? e := by
  obtain ⟨kind, index⟩ := e
  cases kind with
  | method => exact map_getElem?_modify r.methods id.index f (·.parentType.element) (by simp [kept]) index
  | _ => rfl

theorem owner?_updateAttribute (id : AttributeId) (f : AttributeEntity → AttributeEntity)
    (kept : ∀ a, (f a).parentType = a.parentType) (e : Element) : (r.updateAttribute id f).owner? e = r.owner? e := by
  obtain ⟨kind, index⟩ := e
  cases kind with
  | «attribute» => exact map_getElem?_modify r.attributes id.index f (·.parentType.element) (by simp [kept]) index
  | _ => rfl

theorem owner?_update {c : Change} (update : c.insertion? = none) (d : Draft) (e : Element) :
    (c.apply d).repository.owner? e = d.repository.owner? e := by
  cases c with
  | space | type | method | field | parameter | initializer | localVariable | inheritance | invocation | access =>
    cases update
  | typeModifiers | typeKind | typeOpened | typeDeclared =>
    apply owner?_updateType
    exact fun _ => rfl
  | methodBound | methodTyped | methodDeclared =>
    apply owner?_updateMethod
    exact fun _ => rfl
  | attributeDeclared =>
    apply owner?_updateAttribute
    exact fun _ => rfl
  | written | remember => rfl

namespace Layered

theorem empty : ({} : Repository).Layered := by
  refine ⟨.empty, fun e owner owned => ?_⟩
  obtain ⟨kind, index⟩ := e
  cases kind <;> simp [owner?, type?, method?, attribute?, parameter?] at owned

theorem insert (h : r.Layered) (i : Insertion) (there : ∀ owner, i.owner? = some owner → r.Holds owner) :
    (i.apply r).Layered := by
  refine ⟨h.filed.insert i, fun e owner owned => ?_⟩
  have order := i.order_apply r
  have old : ∀ {k : Nat} {x : Element}, r.order[k]? = some x → (i.apply r).order[k]? = some x := by
    intro k x known
    have inside : k < r.order.size := (Array.getElem?_eq_some_iff.mp known).1
    rw [order, Array.getElem?_push, if_neg (Nat.ne_of_lt inside), known]
  rw [owner?_insert] at owned
  split at owned
  · next last =>
    -- the owner of a new element is there, and so it is listed already
    obtain ⟨k, listed⟩ := List.getElem?_of_mem ((h.filed.all owner).mpr (there owner owned))
    rw [Array.getElem?_toList] at listed
    refine ⟨k, r.order.size, (Array.getElem?_eq_some_iff.mp listed).1, old listed, ?_⟩
    rw [order, last]
    exact Array.getElem?_push_size
  · obtain ⟨j, k, lt, first, second⟩ := h.before e owner owned
    exact ⟨j, k, lt, old first, old second⟩

theorem change {p : Promises} {d : Draft} {c : Change} (h : d.repository.Layered) (proper : c.Proper p d) :
    (c.apply d).repository.Layered := by
  rcases c.repository_cases d with same | ⟨i, insertion, inserted⟩ | update
  · rw [same]
    exact h
  · rw [inserted]
    refine h.insert i fun owner owned => ?_
    cases c with
    | type | method | initializer | field | parameter =>
      cases insertion
      cases owned
      exact proper.there trivial _ List.mem_cons_self
    | space | localVariable | inheritance | invocation | access =>
      cases insertion
      cases owned
    | _ => cases insertion
  · refine ⟨h.filed.change c, fun e owner owned => ?_⟩
    rw [owner?_update update] at owned
    rw [Precedes, c.order_of_update update]
    exact h.before e owner owned

end Layered

/-- How the name of an element is found, by going outwards. A derivation is a finite run of the recursion, and nothing
in the rules bounds its depth. -/
inductive NameOf (r : Repository) : Element → String → Prop where
  | ns {i : Nat} {n : NamespaceEntity} (known : r.namespaces[i]? = some n) : NameOf r ⟨.ns, i⟩ n.name
  | type {i : Nat} {t : TypeEntity} {outer : String} (known : r.types[i]? = some t)
      (run : NameOf r t.container.element outer) : NameOf r ⟨.type, i⟩ (joinName outer t.name)
  | method {i : Nat} {m : MethodEntity} {outer : String} (known : r.methods[i]? = some m)
      (run : NameOf r m.parentType.element outer) : NameOf r ⟨.method, i⟩ (joinName outer m.signature)
  | «attribute» {i : Nat} {a : AttributeEntity} {outer : String} (known : r.attributes[i]? = some a)
      (run : NameOf r a.parentType.element outer) : NameOf r ⟨.attribute, i⟩ (joinName outer a.name)
  | parameter {i : Nat} {q : ParameterEntity} {outer : String} (known : r.parameters[i]? = some q)
      (run : NameOf r q.parent.element outer) : NameOf r ⟨.parameter, i⟩ (joinName outer q.name)
  | absent {e : Element} (missing : ¬ r.Holds e) : NameOf r e ""

/-- The recursion that finds names ends on every id, with the name that is computed for it. -/
structure NamesEnd (r : Repository) : Prop where
  container : ∀ c name, r.NameOf (Container.element c) name ↔ name = r.containerName c
  type : ∀ id name, r.NameOf (ElementId.element id) name ↔ name = r.typeName id
  method : ∀ id name, r.NameOf (ElementId.element id) name ↔ name = r.methodName id
  «attribute» : ∀ id name, r.NameOf (ElementId.element id) name ↔ name = r.attributeName id
  parameter : ∀ id name, r.NameOf (ElementId.element id) name ↔ name = r.parameterName id

theorem NameOf.unique {e : Element} {name other : String} (h : r.NameOf e name) (k : r.NameOf e other) :
    other = name := by
  induction h generalizing other with
  | ns known =>
    cases k with
    | ns known' => cases known.symm.trans known'; rfl
    | absent missing => exact absurd (Array.getElem?_eq_some_iff.mp known).1 missing
  | type known _ ih =>
    cases k with
    | type known' run => cases known.symm.trans known'; rw [ih run]
    | absent missing => exact absurd (Array.getElem?_eq_some_iff.mp known).1 missing
  | method known _ ih =>
    cases k with
    | method known' run => cases known.symm.trans known'; rw [ih run]
    | absent missing => exact absurd (Array.getElem?_eq_some_iff.mp known).1 missing
  | «attribute» known _ ih =>
    cases k with
    | «attribute» known' run => cases known.symm.trans known'; rw [ih run]
    | absent missing => exact absurd (Array.getElem?_eq_some_iff.mp known).1 missing
  | parameter known _ ih =>
    cases k with
    | parameter known' run => cases known.symm.trans known'; rw [ih run]
    | absent missing => exact absurd (Array.getElem?_eq_some_iff.mp known).1 missing
  | absent missing =>
    cases k with
    | absent => rfl
    | ns known | type known | method known | «attribute» known | parameter known =>
      exact absurd (Array.getElem?_eq_some_iff.mp known).1 missing

theorem NameOf.iff {e : Element} {own : String} (h : r.NameOf e own) (name : String) :
    r.NameOf e name ↔ name = own :=
  ⟨h.unique, fun same => same ▸ h⟩

theorem Settled.nameOf {n : Nat} {c : Container} (h : r.Settled n c) :
    r.NameOf c.element (r.containerNameWithin n c) := by
  induction h with
  | ns known =>
    simp only [containerNameWithin, known]
    exact .ns known
  | type known _ ih =>
    rw [containerNameWithin_type known]
    exact .type known ih
  | method known _ ih =>
    rw [containerNameWithin_method known]
    exact .method known ih

theorem containerName_of_missing {c : Container} (missing : ¬ r.Holds c.element) : r.containerName c = "" := by
  cases c with
  | ns id =>
    have none : r.ns? id = none := Array.getElem?_eq_none (Nat.le_of_not_lt missing)
    simp only [containerName, containerNameWithin, none]
  | type id =>
    have none : r.type? id = none := Array.getElem?_eq_none (Nat.le_of_not_lt missing)
    simp only [containerName, containerNameWithin, none]
  | method id =>
    have none : r.method? id = none := Array.getElem?_eq_none (Nat.le_of_not_lt missing)
    simp only [containerName, containerNameWithin, none]

theorem Rooted.nameOf (h : r.Rooted) (c : Container) : r.NameOf c.element (r.containerName c) := by
  by_cases there : r.Holds c.element
  · exact (h c there).nameOf
  · rw [containerName_of_missing there]
    exact .absent there

theorem Rooted.namesEnd (h : r.Rooted) : r.NamesEnd where
  container c := (h.nameOf c).iff
  type id := (h.nameOf (.type id)).iff
  method id := (h.nameOf (.method id)).iff
  «attribute» id := by
    refine NameOf.iff ?_
    by_cases there : r.Holds id.element
    · have known : r.attribute? id = some _ := Array.getElem?_eq_getElem there
      rw [attributeName_eq known]
      exact .attribute known (h.nameOf (.type _))
    · have none : r.attribute? id = none := Array.getElem?_eq_none (Nat.le_of_not_lt there)
      simp only [attributeName, none]
      exact .absent there
  parameter id := by
    refine NameOf.iff ?_
    by_cases there : r.Holds id.element
    · have known : r.parameter? id = some _ := Array.getElem?_eq_getElem there
      rw [parameterName_eq known]
      exact .parameter known (h.nameOf (.method _))
    · have none : r.parameter? id = none := Array.getElem?_eq_none (Nat.le_of_not_lt there)
      simp only [parameterName, none]
      exact .absent there

end Repository

namespace Operation

/-- In every draft that is reached by opening only what is there, and giving parameters only to methods that are there,
an element comes after what it is contained in, and the search for a name ends. Every visit of a project is such a
history. -/
theorem containment_wellFounded :
    (∀ (ctx : Context) (history : List Operation), Admissible .bare ctx history {} →
      (applyAll ctx history {}).repository.Layered ∧ (applyAll ctx history {}).repository.NamesEnd) ∧
    ∀ (project : Java.Project) (keying : AttributeKeying), ∃ history,
      Admissible .bare { bindings := project.bindings, keying } history {} ∧
        (applyAll { bindings := project.bindings, keying } history {}).repository = buildModel project keying := by
  refine ⟨fun ctx history fits => ⟨?_, ?_⟩, buildModel_history not_false⟩
  · exact applyAll_keeps (Promises.bare_keeps ctx) (fun _ _ _ proper layered => layered.change proper) history
      (sound_empty .bare) fits .empty
  · exact (sound_applyAll (Promises.bare_keeps ctx) history (sound_empty .bare) fits).sited.rooted.namesEnd

theorem containment_wellFounded_sample :
    Admissible .bare { bindings := sampleTable } sampleHistory {} ∧
      (applyAll { bindings := sampleTable } sampleHistory {}).repository.Layered ∧
      (applyAll { bindings := sampleTable } sampleHistory {}).repository.NamesEnd :=
  have fits := sampleHistory_admissible.bare
  ⟨fits, containment_wellFounded.1 { bindings := sampleTable } sampleHistory fits⟩

end Operation

end Famix
