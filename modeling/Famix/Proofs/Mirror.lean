import Famix.Proofs.Order
import Mathlib.Data.List.Induction

/-!
The posting lists say what the stores say. Whatever is inserted and however it is enriched, the list filed under a key
names exactly the elements that belong to the key, in the order of their ids, and each id is the place of its element.
-/
namespace Famix

namespace Repository

/-- The ids, ascending, of the elements of a store that satisfy a condition. -/
def idsWhere (store : Array α) (p : α → Bool) : List (ElementId kind) :=
  ((List.range store.size).filter fun i => store[i]?.any p).map .mk

/-- Every element of a store has its place as its id. -/
def Numbered (store : Array α) (id : α → ElementId kind) : Prop :=
  ∀ (i : Nat) (a : α), store[i]? = some a → id a = ⟨i⟩

structure Identified (r : Repository) : Prop where
  namespaces : Numbered r.namespaces (·.id)
  types : Numbered r.types (·.id)
  methods : Numbered r.methods (·.id)
  attributes : Numbered r.attributes (·.id)
  parameters : Numbered r.parameters (·.id)
  localVariables : Numbered r.localVariables (·.id)
  inheritances : Numbered r.inheritances (·.id)
  invocations : Numbered r.invocations (·.id)
  accesses : Numbered r.accesses (·.id)

/-- The elements of each kind come in the order of their ids, and no others are counted. -/
structure Ordered (r : Repository) : Prop where
  byKind : ∀ kind, (r.order.toList.filter (·.kind = kind)).map (·.index) = List.range (r.count kind)
  size : r.size = r.summary.total

structure Posted (r : Repository) : Prop where
  typesIn : ∀ c, r.typesIn c = idsWhere r.types (·.container = c)
  methodsOf : ∀ t, r.methodsOf t = idsWhere r.methods (·.parentType = t)
  attributesOf : ∀ t, r.attributesOf t = idsWhere r.attributes (·.parentType = t)
  parameterIdsOf : ∀ m, r.parameterIdsOf m = idsWhere r.parameters (·.parent = m)
  localIdsOf : ∀ m, r.localIdsOf m = idsWhere r.localVariables (·.parent = some m)
  supertypesOf : ∀ t, r.supertypesOf t = (r.inheritances.toList.filter (·.subclass = t)).map (·.superclass)
  subtypesOf : ∀ t, r.subtypesOf t = (r.inheritances.toList.filter (·.superclass = t)).map (·.subclass)

/-- Ids, order and posting lists are as the stores have it, for every key whether it denotes something or not. -/
structure Mirrored (r : Repository) : Prop where
  identified : r.Identified
  ordered : r.Ordered
  posted : r.Posted
  parametersOf : ∀ m, r.parametersOf m = r.parameters.toList.filter (·.parent = m)
  localsOf : ∀ m, r.localsOf m = r.localVariables.toList.filter (·.parent = some m)

section Stores

variable {store : Array α} {id : α → ElementId kind} {p : α → Bool}

theorem Numbered.empty : Numbered (#[] : Array α) id := by
  intro i a known
  simp at known

theorem Numbered.push (h : Numbered store id) {a : α} (own : id a = ⟨store.size⟩) : Numbered (store.push a) id := by
  intro i b known
  rw [Array.getElem?_push] at known
  split at known
  · next last =>
    cases Option.some.inj known
    rw [own, last]
  · exact h i b known

theorem Numbered.modify (h : Numbered store id) (i : Nat) {f : α → α} (kept : ∀ a, id (f a) = id a) :
    Numbered (store.modify i f) id := by
  intro j b known
  rw [Array.getElem?_modify] at known
  split at known
  · obtain ⟨a, old, rfl⟩ := Option.map_eq_some_iff.mp known
    rw [kept, h j a old]
  · exact h j b known

theorem idsWhere_push (store : Array α) (p : α → Bool) (a : α) :
    (idsWhere (store.push a) p : List (ElementId kind)) =
      idsWhere store p ++ if p a then [⟨store.size⟩] else [] := by
  have before : (List.range store.size).filter (fun i => (store.push a)[i]?.any p) =
      (List.range store.size).filter fun i => store[i]?.any p := by
    refine List.filter_congr fun i inside => ?_
    rw [Array.getElem?_push, if_neg (Nat.ne_of_lt (List.mem_range.mp inside))]
  unfold idsWhere
  rw [Array.size_push, List.range_succ, List.filter_append, before, List.map_append]
  cases holds : p a <;> simp [holds]

theorem idsWhere_modify (store : Array α) (i : Nat) {f : α → α} (kept : ∀ a, p (f a) = p a) :
    (idsWhere (store.modify i f) p : List (ElementId kind)) = idsWhere store p := by
  unfold idsWhere
  rw [Array.size_modify]
  refine congrArg _ (List.filter_congr fun j _ => ?_)
  rw [Array.getElem?_modify]
  split
  · cases store[j]? <;> simp [kept]
  · rfl

theorem lt_size_of_mem {x : ElementId kind} (mem : x ∈ idsWhere store p) : x.index < store.size := by
  obtain ⟨i, listed, rfl⟩ := List.mem_map.mp mem
  exact List.mem_range.mp (List.mem_filter.mp listed).1

/-- To look up the ids of some elements is to choose these elements from the store. -/
theorem filterMap_idsWhere (xs : List α) (p : α → Bool) :
    (idsWhere xs.toArray p : List (ElementId kind)).filterMap (fun x => xs.toArray[x.index]?) = xs.filter p := by
  induction xs using List.reverseRecOn with
  | nil => rfl
  | append_singleton xs a ih =>
    have old : (idsWhere xs.toArray p : List (ElementId kind)).filterMap (fun x => (xs.toArray.push a)[x.index]?) =
        (idsWhere xs.toArray p : List (ElementId kind)).filterMap fun x => xs.toArray[x.index]? := by
      refine List.filterMap_congr fun x mem => ?_
      rw [Array.getElem?_push, if_neg (Nat.ne_of_lt (lt_size_of_mem mem))]
    rw [← List.push_toArray, idsWhere_push, List.filterMap_append, old, ih, List.filter_append]
    cases holds : p a <;> simp [holds]

end Stores

variable {r : Repository}

theorem Ordered.insert (h : r.Ordered) (i : Insertion) : (i.apply r).Ordered := by
  constructor
  · intro kind
    rw [i.order_apply, i.count_apply, Array.toList_push, List.filter_append, List.map_append, h.byKind]
    by_cases same : kind = i.kind
    · subst same
      simp [List.range_succ]
    · simp [same, Ne.symm same]
  · have total : (i.apply r).summary.total = r.summary.total + 1 := by
      cases i <;> simp [Insertion.apply, summary, Summary.total, insertNamespace, insertType, insertMethod,
        insertAttribute, insertParameter, insertLocalVariable, insertInheritance, insertInvocation, insertAccess]
        <;> omega
    rw [total, ← h.size, Repository.size, i.order_apply, Array.size_push]
    rfl

theorem Identified.insert (h : r.Identified) (i : Insertion) : (i.apply r).Identified := by
  cases i with
  | ns => exact { h with namespaces := h.namespaces.push rfl }
  | type => exact { h with types := h.types.push rfl }
  | method => exact { h with methods := h.methods.push rfl }
  | «attribute» => exact { h with attributes := h.attributes.push rfl }
  | parameter => exact { h with parameters := h.parameters.push rfl }
  | localVariable => exact { h with localVariables := h.localVariables.push rfl }
  | inheritance => exact { h with inheritances := h.inheritances.push rfl }
  | invocation => exact { h with invocations := h.invocations.push rfl }
  | access => exact { h with accesses := h.accesses.push rfl }

/-- What is filed under one key of a posting list when an element is pushed. -/
theorem of_file_push [DecidableEq κ] {postings : Postings κ (ElementId kind)} {store : Array α} {key : α → κ} {k : κ}
    (h : postings.of k = idsWhere store (key · = k)) (a : α) :
    (postings.file (key a) ⟨store.size⟩).of k = idsWhere (store.push a) (key · = k) := by
  rw [Postings.of_file, h, idsWhere_push]
  by_cases same : k = key a
  · simp [same]
  · simp [same, Ne.symm same]

theorem of_file_edge [DecidableEq κ] {postings : Postings κ ι} {store : Array α} {key : α → κ} {item : α → ι} {k : κ}
    (h : postings.of k = (store.toList.filter (key · = k)).map item) (a : α) :
    (postings.file (key a) (item a)).of k = ((store.push a).toList.filter (key · = k)).map item := by
  rw [Postings.of_file, h, Array.toList_push, List.filter_append, List.map_append]
  by_cases same : k = key a
  · simp [same]
  · simp [same, Ne.symm same]

theorem Posted.insert (h : r.Posted) (i : Insertion) : (i.apply r).Posted := by
  cases i with
  | ns | invocation | access => exact { h with }
  | type entity container kind =>
    exact { h with typesIn := fun c => of_file_push (h.typesIn c) { entity with id := ⟨_⟩, container, kind } }
  | method entity parentType signature kind declaredType =>
    exact { h with
      methodsOf := fun t =>
        of_file_push (h.methodsOf t) { entity with id := ⟨_⟩, parentType, signature, kind, declaredType } }
  | «attribute» entity parentType declaredType =>
    exact { h with
      attributesOf := fun t => of_file_push (h.attributesOf t) { entity with id := ⟨_⟩, parentType, declaredType } }
  | parameter entity parent declaredType =>
    exact { h with
      parameterIdsOf := fun m => of_file_push (h.parameterIdsOf m) { entity with id := ⟨_⟩, parent, declaredType } }
  | localVariable entity parent declared =>
    refine { h with localIdsOf := fun m => ?_ }
    -- a variable outside of methods is filed nowhere
    cases parent with
    | none =>
      change r.localIdsOf m = idsWhere (r.localVariables.push _) _
      rw [h.localIdsOf, idsWhere_push]
      simp
    | some own =>
      change (r.localsByMethod.file own _).of m = idsWhere (r.localVariables.push _) _
      have old : r.localsByMethod.of m = _ := h.localIdsOf m
      rw [Postings.of_file, old, idsWhere_push]
      simp [eq_comm]
  | inheritance subclass superclass =>
    exact { h with
      supertypesOf := fun t => of_file_edge (h.supertypesOf t) ⟨_, subclass, superclass⟩
      subtypesOf := fun t => of_file_edge (h.subtypesOf t) ⟨_, subclass, superclass⟩ }

theorem summary_congr {s : Repository} (same : ∀ kind, s.count kind = r.count kind) : s.summary = r.summary := by
  unfold summary
  congr 1
  exacts [same .ns, same .type, same .method, same .attribute, same .parameter, same .localVariable,
    same .inheritance, same .invocation, same .access]

theorem Ordered.congr {s : Repository} (h : r.Ordered) (order : s.order = r.order)
    (same : ∀ kind, s.count kind = r.count kind) : s.Ordered := by
  refine ⟨fun kind => ?_, ?_⟩
  · rw [order, same, h.byKind]
  · rw [Repository.size, order, summary_congr same]
    exact h.size

namespace Mirrored

theorem of (identified : r.Identified) (ordered : r.Ordered) (posted : r.Posted) : r.Mirrored := by
  refine ⟨identified, ordered, posted, fun m => ?_, fun m => ?_⟩
  · rw [Repository.parametersOf, posted.parameterIdsOf]
    exact filterMap_idsWhere r.parameters.toList _
  · rw [Repository.localsOf, posted.localIdsOf]
    exact filterMap_idsWhere r.localVariables.toList _

theorem empty : ({} : Repository).Mirrored := by
  refine of ?_ ⟨fun kind => by cases kind <;> rfl, rfl⟩ ?_
  · constructor <;> exact .empty
  · constructor <;> exact fun _ => rfl

theorem insert (h : r.Mirrored) (i : Insertion) : (i.apply r).Mirrored :=
  of (h.identified.insert i) (h.ordered.insert i) (h.posted.insert i)

/-! An element may change in all but its id and what it is filed under. -/

theorem updateType (h : r.Mirrored) (id : TypeId) {f : TypeEntity → TypeEntity} (own : ∀ t, (f t).id = t.id)
    (filed : ∀ t, (f t).container = t.container) : (r.updateType id f).Mirrored := by
  refine of { h.identified with types := h.identified.types.modify _ own } (h.ordered.congr rfl ?_)
    { h.posted with typesIn := fun c => ?_ }
  · intro kind
    cases kind <;> first | rfl | exact Array.size_modify
  · exact (h.posted.typesIn c).trans (idsWhere_modify _ _ fun t => by rw [filed]).symm

theorem updateMethod (h : r.Mirrored) (id : MethodId) {f : MethodEntity → MethodEntity} (own : ∀ m, (f m).id = m.id)
    (filed : ∀ m, (f m).parentType = m.parentType) : (r.updateMethod id f).Mirrored := by
  refine of { h.identified with methods := h.identified.methods.modify _ own } (h.ordered.congr rfl ?_)
    { h.posted with methodsOf := fun t => ?_ }
  · intro kind
    cases kind <;> first | rfl | exact Array.size_modify
  · exact (h.posted.methodsOf t).trans (idsWhere_modify _ _ fun m => by rw [filed]).symm

theorem updateAttribute (h : r.Mirrored) (id : AttributeId) {f : AttributeEntity → AttributeEntity}
    (own : ∀ a, (f a).id = a.id) (filed : ∀ a, (f a).parentType = a.parentType) :
    (r.updateAttribute id f).Mirrored := by
  refine of { h.identified with attributes := h.identified.attributes.modify _ own } (h.ordered.congr rfl ?_)
    { h.posted with attributesOf := fun t => ?_ }
  · intro kind
    cases kind <;> first | rfl | exact Array.size_modify
  · exact (h.posted.attributesOf t).trans (idsWhere_modify _ _ fun a => by rw [filed]).symm

theorem updateAccess (h : r.Mirrored) (id : AccessId) {f : Access → Access} (own : ∀ a, (f a).id = a.id) :
    (r.updateAccess id f).Mirrored := by
  refine of { h.identified with accesses := h.identified.accesses.modify _ own } (h.ordered.congr rfl ?_)
    { h.posted with }
  intro kind
  cases kind <;> first | rfl | exact Array.size_modify

theorem change {d : Draft} (h : d.repository.Mirrored) (c : Change) : (c.apply d).repository.Mirrored := by
  rcases c.repository_cases d with same | ⟨i, -, inserted⟩ | update
  · rw [same]
    exact h
  · rw [inserted]
    exact h.insert i
  · cases c with
    | space | type | method | field | parameter | initializer | localVariable | inheritance | invocation | access =>
      cases update
    | typeModifiers | typeKind | typeOpened | typeDeclared => exact h.updateType _ (fun _ => rfl) fun _ => rfl
    | methodBound | methodTyped | methodDeclared => exact h.updateMethod _ (fun _ => rfl) fun _ => rfl
    | attributeDeclared => exact h.updateAttribute _ (fun _ => rfl) fun _ => rfl
    | written => exact h.updateAccess _ fun _ => rfl
    | remember => exact h

end Mirrored

/-- A step in the life of a repository: an insertion, or further modifiers for an element that may be there. -/
inductive Step where
  | insert (i : Insertion)
  | enrichType (id : TypeId) (modifiers : List Modifier)
  | enrichMethod (id : MethodId) (modifiers : List Modifier)
  | enrichAttribute (id : AttributeId) (modifiers : List Modifier)

namespace Step

def apply (r : Repository) : Step → Repository
  | .insert i => i.apply r
  | .enrichType id modifiers =>
    r.updateType id fun t => { t with toNamedEntity := t.toNamedEntity.addModifiers modifiers }
  | .enrichMethod id modifiers =>
    r.updateMethod id fun m => { m with toNamedEntity := m.toNamedEntity.addModifiers modifiers }
  | .enrichAttribute id modifiers =>
    r.updateAttribute id fun a => { a with toNamedEntity := a.toNamedEntity.addModifiers modifiers }

def run (steps : List Step) : Repository := steps.foldl apply {}

theorem mirrored (s : Step) {r : Repository} (h : r.Mirrored) : (s.apply r).Mirrored := by
  cases s with
  | insert i => exact h.insert i
  | enrichType => exact h.updateType _ (fun _ => rfl) fun _ => rfl
  | enrichMethod => exact h.updateMethod _ (fun _ => rfl) fun _ => rfl
  | enrichAttribute => exact h.updateAttribute _ (fun _ => rfl) fun _ => rfl

theorem run_mirrored (steps : List Step) {r : Repository} (h : r.Mirrored) : (steps.foldl apply r).Mirrored := by
  induction steps generalizing r with
  | nil => exact h
  | cons s rest ih => exact ih (s.mirrored h)

end Step

/-- Posting lists, order and counts agree with the stores after any insertions and enrichments, and after any history
of operations on a draft. No posting is lost, repeated or out of date. -/
theorem postings_mirror_stores :
    (∀ steps : List Step, (Step.run steps).Mirrored) ∧
      ∀ (ctx : Context) (history : List Operation), (Operation.applyAll ctx history {}).repository.Mirrored := by
  constructor
  · intro steps
    exact Step.run_mirrored steps .empty
  · intro ctx history
    exact Operation.applyAll_invariant (P := fun d => d.repository.Mirrored) ctx (fun c _ h => h.change c)
      (fun _ _ h => h) history {} .empty

example : (Step.run [.insert (.inheritance ⟨0⟩ ⟨1⟩), .enrichType ⟨0⟩ [.final],
    .insert (.inheritance ⟨0⟩ ⟨1⟩)]).supertypesOf ⟨0⟩ = [⟨1⟩, ⟨1⟩] := rfl

end Repository

end Famix
