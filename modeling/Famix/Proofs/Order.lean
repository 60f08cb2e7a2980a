import Famix.Mse.Description
import Famix.Proofs.Containment
import Mathlib.Data.List.Nodup

/-!
The order in which elements came. Where elements are only inserted and changed, every element is listed once and
nothing else is, so that the number of an element is its place in the order.
-/
namespace Famix

/-- The insertion of one element, with whatever is to be known of it. -/
inductive Insertion where
  | ns (entity : NamedEntity)
  | type (entity : NamedEntity) (container : Container) (kind : TypeKind)
  | method (entity : NamedEntity) (parentType : TypeId) (signature : String) (kind : MethodKind)
      (declaredType : Option TypeId)
  | attribute (entity : NamedEntity) (parentType declaredType : TypeId)
  | parameter (entity : NamedEntity) (parent : MethodId) (declaredType : TypeId)
  | localVariable (entity : NamedEntity) (parent : Option MethodId) (declaredType : TypeId)
  | inheritance (subclass superclass : TypeId)
  | invocation (sender : Option MethodId) (candidates : List MethodId) (signature : String)
  | access (accessor : Option MethodId) (variableRef : Option VariableRef) (isWrite : Bool)

namespace Insertion

def kind : Insertion → Kind
  | .ns _ => .ns
  | .type .. => .type
  | .method .. => .method
  | .attribute .. => .attribute
  | .parameter .. => .parameter
  | .localVariable .. => .localVariable
  | .inheritance .. => .inheritance
  | .invocation .. => .invocation
  | .access .. => .access

def apply (r : Repository) : Insertion → Repository
  | .ns entity => (r.insertNamespace entity).2
  | .type entity container kind => (r.insertType entity container kind).2
  | .method entity parentType signature kind declaredType =>
    (r.insertMethod entity parentType signature kind declaredType).2
  | .attribute entity parentType declaredType => (r.insertAttribute entity parentType declaredType).2
  | .parameter entity parent declaredType => (r.insertParameter entity parent declaredType).2
  | .localVariable entity parent declaredType => (r.insertLocalVariable entity parent declaredType).2
  | .inheritance subclass superclass => (r.insertInheritance subclass superclass).2
  | .invocation sender candidates signature => (r.insertInvocation sender candidates signature).2
  | .access accessor variableRef isWrite => (r.insertAccess accessor variableRef isWrite).2

/-- The repository that insertions build from nothing. -/
def build (insertions : List Insertion) : Repository := insertions.foldl apply {}

theorem order_apply (r : Repository) (i : Insertion) :
    (i.apply r).order = r.order.push ⟨i.kind, r.count i.kind⟩ := by
  cases i <;> rfl

theorem count_apply (r : Repository) (i : Insertion) (kind : Kind) :
    (i.apply r).count kind = if kind = i.kind then r.count kind + 1 else r.count kind := by
  cases i <;> cases kind <;> simp [apply, Insertion.kind, Repository.count, Repository.insertNamespace,
    Repository.insertType, Repository.insertMethod, Repository.insertAttribute, Repository.insertParameter,
    Repository.insertLocalVariable, Repository.insertInheritance, Repository.insertInvocation, Repository.insertAccess]

end Insertion

namespace Change

/-- The insertion that a change makes, unless it is made to an element that is there or finds one that it seeks. -/
def insertion? : Change → Option Insertion
  | .space name => some (.ns (.stub name))
  | .type _ name container kind => some (.type (.stub name) container kind)
  | .method _ name parent signature isConstructor =>
    some (.method (.stub name) parent signature (Draft.methodKind isConstructor) none)
  | .initializer parent modifiers =>
    some (.method ⟨initializerName, false, modifiers⟩ parent initializerName .initializer none)
  | .field _ name parent declared => some (.attribute (.stub name) parent declared)
  | .parameter _ name parent declared =>
    some (.parameter { NamedEntity.stub name with isStub := false } parent declared)
  | .localVariable name parent declared => some (.localVariable (.stub name) parent declared)
  | .inheritance subclass superclass => some (.inheritance subclass superclass)
  | .invocation sender candidate signature => some (.invocation sender [candidate] signature)
  | .access accessor target => some (.access accessor target false)
  | _ => none

theorem repository_cases (c : Change) (d : Draft) :
    (c.apply d).repository = d.repository ∨
      (∃ i, c.insertion? = some i ∧ (c.apply d).repository = i.apply d.repository) ∨
      c.insertion? = none := by
  have result := c.result d
  generalize c.apply d = e at result ⊢
  cases result with
  | known => exact .inl rfl
  | space | type | method | field | parameter => exact .inr (.inl ⟨_, rfl, rfl⟩)
  | direct c direct =>
    cases c with
    | space | type | method | field | parameter => cases direct
    | initializer | localVariable | inheritance | invocation | access => exact .inr (.inl ⟨_, rfl, rfl⟩)
    | _ => exact .inr (.inr rfl)

/-- A change to an element that is there leaves it at those there are. -/
theorem count_of_update {c : Change} (update : c.insertion? = none) (d : Draft) (kind : Kind) :
    (c.apply d).repository.count kind = d.repository.count kind := by
  cases c with
  | space | type | method | field | parameter | initializer | localVariable | inheritance | invocation | access =>
    cases update
  | _ => cases kind <;> first | rfl | exact Array.size_modify

theorem order_of_update {c : Change} (update : c.insertion? = none) (d : Draft) :
    (c.apply d).repository.order = d.repository.order := by
  cases c with
  | space | type | method | field | parameter | initializer | localVariable | inheritance | invocation | access =>
    cases update
  | _ => rfl

end Change

namespace Repository

/-- Each element is listed once, and nothing else is listed. -/
structure Filed (r : Repository) : Prop where
  once : r.order.toList.Nodup
  all : ∀ e, e ∈ r.order.toList ↔ r.Holds e

namespace Filed

variable {r : Repository}

theorem empty : ({} : Repository).Filed := by
  refine ⟨List.nodup_nil, fun e => ⟨fun listed => absurd listed List.not_mem_nil, fun there => ?_⟩⟩
  obtain ⟨kind, index⟩ := e
  cases kind <;> exact absurd there (Nat.not_lt_zero _)

theorem insert (h : r.Filed) (i : Insertion) : (i.apply r).Filed := by
  have order : (i.apply r).order.toList = r.order.toList ++ [⟨i.kind, r.count i.kind⟩] := by
    rw [i.order_apply, Array.toList_push]
  constructor
  · have new : (⟨i.kind, r.count i.kind⟩ : Element) ∉ r.order.toList := by
      rw [h.all]
      exact Nat.lt_irrefl _
    rw [order]
    exact List.nodup_append.mpr ⟨h.once, by simp, by
      rintro e listed _ last rfl
      exact new (List.mem_singleton.mp last ▸ listed)⟩
  · intro e
    obtain ⟨kind, index⟩ := e
    rw [order, List.mem_append, h.all, List.mem_singleton, Element.mk.injEq]
    change index < r.count kind ∨ kind = i.kind ∧ index = r.count i.kind ↔ index < (i.apply r).count kind
    rw [i.count_apply]
    split
    · next same =>
      subst same
      simp only [true_and]
      omega
    · next other => simp [other]

theorem change {d : Draft} (h : d.repository.Filed) (c : Change) : (c.apply d).repository.Filed := by
  rcases c.repository_cases d with same | ⟨i, -, inserted⟩ | update
  · rw [same]
    exact h
  · rw [inserted]
    exact h.insert i
  · have order := c.order_of_update update d
    refine ⟨order ▸ h.once, fun e => ?_⟩
    rw [order, h.all]
    change e.index < d.repository.count e.kind ↔ e.index < (c.apply d).repository.count e.kind
    rw [c.count_of_update update]

theorem build (insertions : List Insertion) : (Insertion.build insertions).Filed := by
  have run : ∀ r : Repository, r.Filed → (insertions.foldl Insertion.apply r).Filed := by
    induction insertions with
    | nil => exact fun _ h => h
    | cons i rest ih => exact fun r h => ih (i.apply r) (h.insert i)
  exact run {} empty

/-- The numbers of elements are their places in the order, counted from one. -/
theorem number?_eq_some (h : r.Filed) {e : Element} {n : Nat} :
    r.number? e = some n ↔ ∃ k, n = k + 1 ∧ r.order[k]? = some e := by
  rw [number?, Option.map_eq_some_iff]
  constructor
  · rintro ⟨k, found, rfl⟩
    obtain ⟨inside, same, -⟩ := List.findIdx?_eq_some_iff_getElem.mp found
    refine ⟨k, rfl, ?_⟩
    rw [← Array.getElem?_toList, List.getElem?_eq_getElem inside, of_decide_eq_true same]
  · rintro ⟨k, rfl, listed⟩
    obtain ⟨inside, same⟩ := List.getElem?_eq_some_iff.mp (Array.getElem?_toList ▸ listed)
    refine ⟨k, List.findIdx?_eq_some_iff_getElem.mpr ⟨inside, by simp [same], fun j before => ?_⟩, rfl⟩
    have apart : r.order.toList[j] ≠ r.order.toList[k] :=
      fun equal => Nat.ne_of_lt before (h.once.getElem_inj_iff.mp equal)
    rw [same] at apart
    simpa using apart

theorem number?_of_holds (h : r.Filed) {e : Element} (there : r.Holds e) : ∃ n, r.number? e = some n := by
  obtain ⟨k, listed⟩ := List.getElem?_of_mem ((h.all e).mpr there)
  exact ⟨k + 1, h.number?_eq_some.mpr ⟨k, rfl, Array.getElem?_toList ▸ listed⟩⟩

end Filed

end Repository

end Famix
