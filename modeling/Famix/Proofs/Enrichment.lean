import Famix.Proofs.Change
import Mathlib.Data.List.Basic

/-!
Operations enrich a draft and never replace what is in it. Elements, names and postings stay; a type or a method
may turn from a stub into a declared one, and an element without modifiers may be given those of a declaration.
-/
namespace Famix

/-- Every item of a store has one related to it at the same place of another. -/
def Grown (R : Nat → α → α → Prop) (xs ys : Array α) : Prop :=
  ∀ i x, xs[i]? = some x → ∃ y, ys[i]? = some y ∧ R i x y

namespace Grown

variable {R : Nat → α → α → Prop} {xs ys : Array α}

theorem refl (same : ∀ i x, R i x x) (xs : Array α) : Grown R xs xs :=
  fun i x h => ⟨x, h, same i x⟩

theorem push (h : Grown R xs ys) (z : α) : Grown R xs (ys.push z) := by
  intro i x known
  obtain ⟨y, at_i, related⟩ := h i x known
  have inside : i < ys.size := (Array.getElem?_eq_some_iff.mp at_i).1
  exact ⟨y, by rw [Array.getElem?_push_lt inside]; simpa [inside] using at_i, related⟩

theorem modify (h : Grown R xs ys) (j : Nat) (f : α → α)
    (keep : ∀ x y, xs[j]? = some x → R j x y → R j x (f y)) : Grown R xs (ys.modify j f) := by
  intro i x known
  obtain ⟨y, at_i, related⟩ := h i x known
  by_cases same : j = i
  · subst same
    exact ⟨f y, by simp [Array.getElem?_modify, at_i], keep x y known related⟩
  · exact ⟨y, by simp [Array.getElem?_modify, same, at_i], related⟩

theorem modify_new (h : Grown R xs ys) {j : Nat} (new : xs.size ≤ j) (f : α → α) : Grown R xs (ys.modify j f) :=
  h.modify j f fun x y known _ => by simp [Array.getElem?_eq_none new] at known

end Grown

namespace NamedEntity

/-- The same name, and the same modifiers unless there were none. -/
structure Enriched (a b : NamedEntity) : Prop where
  name : b.name = a.name
  modifiers : b.modifiers = a.modifiers ∨
    a.modifiers.isEmpty = true ∧ ∃ declared, b.modifiers = .declared declared

theorem Enriched.refl (a : NamedEntity) : Enriched a a := ⟨rfl, .inl rfl⟩

theorem Enriched.enrich {a b : NamedEntity} (h : Enriched a b) (modifiers : List Modifier) :
    Enriched a (b.enrich modifiers) := by
  unfold NamedEntity.enrich
  split
  · next empty =>
    refine ⟨h.name, ?_⟩
    rcases h.modifiers with same | ⟨none, _⟩
    · exact .inr ⟨same ▸ empty, modifiers, rfl⟩
    · exact .inr ⟨none, modifiers, rfl⟩
  · exact h

end NamedEntity

/-- What a type was made with stays; it may be declared. -/
structure TypeEntity.Enriched (a b : TypeEntity) : Prop
    extends NamedEntity.Enriched a.toNamedEntity b.toNamedEntity where
  id : b.id = a.id
  container : b.container = a.container
  kind : b.kind = a.kind
  stub : b.isStub = true → a.isStub = true

structure MethodEntity.Enriched (a b : MethodEntity) : Prop
    extends NamedEntity.Enriched a.toNamedEntity b.toNamedEntity where
  id : b.id = a.id
  parentType : b.parentType = a.parentType
  signature : b.signature = a.signature
  kind : b.kind = a.kind
  declaredType : b.declaredType = a.declaredType
  stub : b.isStub = true → a.isStub = true

structure AttributeEntity.Enriched (a b : AttributeEntity) : Prop
    extends NamedEntity.Enriched a.toNamedEntity b.toNamedEntity where
  id : b.id = a.id
  parentType : b.parentType = a.parentType
  declaredType : b.declaredType = a.declaredType
  stub : b.isStub = a.isStub

/-- Whether `b` is the access `a`, or `a` marked as one that writes where that is allowed. -/
def Access.Kept (marked : AccessId → Prop) (i : Nat) (a b : Access) : Prop :=
  b = a ∨ marked ⟨i⟩ ∧ b = { a with isWrite := true }

/-- All that is in `r` is in `s`, enriched at most. -/
structure Repository.Enriches (marked : AccessId → Prop) (r s : Repository) : Prop where
  order : r.order.toList <+: s.order.toList
  namespaces : Grown (fun _ => Eq) r.namespaces s.namespaces
  types : Grown (fun _ => TypeEntity.Enriched) r.types s.types
  methods : Grown (fun _ => MethodEntity.Enriched) r.methods s.methods
  attributes : Grown (fun _ => AttributeEntity.Enriched) r.attributes s.attributes
  parameters : Grown (fun _ => Eq) r.parameters s.parameters
  localVariables : Grown (fun _ => Eq) r.localVariables s.localVariables
  inheritances : Grown (fun _ => Eq) r.inheritances s.inheritances
  invocations : Grown (fun _ => Eq) r.invocations s.invocations
  accesses : Grown (Access.Kept marked) r.accesses s.accesses
  typesIn : ∀ c, r.typesIn c <+: s.typesIn c
  methodsOf : ∀ id, r.methodsOf id <+: s.methodsOf id
  attributesOf : ∀ id, r.attributesOf id <+: s.attributesOf id
  parameterIdsOf : ∀ id, r.parameterIdsOf id <+: s.parameterIdsOf id
  localIdsOf : ∀ id, r.localIdsOf id <+: s.localIdsOf id
  supertypesOf : ∀ id, r.supertypesOf id <+: s.supertypesOf id
  subtypesOf : ∀ id, r.subtypesOf id <+: s.subtypesOf id

namespace Draft

/-- All that is in `d` is in `e`, enriched at most, and found by the same names. -/
structure Enriches (marked : AccessId → Prop) (d e : Draft) : Prop
    extends Repository.Enriches marked d.repository e.repository where
  registry : d.registry.Extends e.registry

theorem Enriches.refl (marked : AccessId → Prop) (d : Draft) : Enriches marked d d where
  order := List.prefix_refl _
  namespaces := .refl (fun _ _ => rfl) _
  types := .refl (fun _ _ => ⟨.refl _, rfl, rfl, rfl, id⟩) _
  methods := .refl (fun _ _ => ⟨.refl _, rfl, rfl, rfl, rfl, rfl, id⟩) _
  attributes := .refl (fun _ _ => ⟨.refl _, rfl, rfl, rfl, rfl⟩) _
  parameters := .refl (fun _ _ => rfl) _
  localVariables := .refl (fun _ _ => rfl) _
  inheritances := .refl (fun _ _ => rfl) _
  invocations := .refl (fun _ _ => rfl) _
  accesses := .refl (fun _ _ => .inl rfl) _
  typesIn _ := List.prefix_refl _
  methodsOf _ := List.prefix_refl _
  attributesOf _ := List.prefix_refl _
  parameterIdsOf _ := List.prefix_refl _
  localIdsOf _ := List.prefix_refl _
  supertypesOf _ := List.prefix_refl _
  subtypesOf _ := List.prefix_refl _
  registry := .refl _

def FieldsAreStubs (d : Draft) : Prop :=
  ∀ (i : Nat) (a : AttributeEntity), d.repository.attributes[i]? = some a → a.isStub = true

theorem prefix_push {l : List α} {xs : Array α} (h : l <+: xs.toList) (x : α) : l <+: (xs.push x).toList := by
  rw [Array.toList_push]
  exact h.trans (List.prefix_append _ _)

theorem prefix_file [DecidableEq κ] {l : List ι} {p : Postings κ ι} {k : κ} (h : l <+: p.of k) (key : κ)
    (item : ι) : l <+: (p.file key item).of k := by
  rw [Postings.of_file]
  exact h.trans (List.prefix_append _ _)

theorem Enriches.direct {marked : AccessId → Prop} {base d : Draft} {c : Change} (h : Enriches marked base d)
    (stubs : base.FieldsAreStubs) (ok : c.New base ∨ ∃ id, marked id ∧ c = .written id)
    (direct : c.interns = false) : Enriches marked base (c.apply d) := by
  cases c with
  | space | type | method | field | parameter => cases direct
  | initializer parent modifiers =>
    exact { h with
      order := prefix_push h.order _
      methods := h.methods.push _
      methodsOf := fun id => prefix_file (h.methodsOf id) _ _ }
  | localVariable name parent declared =>
    refine { h with
      order := prefix_push h.order _
      localVariables := h.localVariables.push _
      localIdsOf := fun id => ?_ }
    cases parent with
    | none => exact h.localIdsOf id
    | some method => exact prefix_file (h.localIdsOf id) _ _
  | inheritance subclass superclass =>
    exact { h with
      order := prefix_push h.order _
      inheritances := h.inheritances.push _
      supertypesOf := fun id => prefix_file (h.supertypesOf id) _ _
      subtypesOf := fun id => prefix_file (h.subtypesOf id) _ _ }
  | invocation sender candidate signature =>
    exact { h with order := prefix_push h.order _, invocations := h.invocations.push _ }
  | access accessor target =>
    exact { h with order := prefix_push h.order _, accesses := h.accesses.push _ }
  -- what is overwritten is not in `base`
  | typeModifiers id _ | typeKind id _ | typeOpened id =>
    have new : base.repository.types.size ≤ id.index := by simpa [Change.New] using ok
    exact { h with types := h.types.modify_new new _ }
  | typeDeclared id modifiers =>
    refine { h with types := h.types.modify _ _ fun x y _ enriched => ?_ }
    have declared := enriched.toEnriched.enrich modifiers
    exact ⟨⟨declared.name, declared.modifiers⟩, enriched.id, enriched.container, enriched.kind, nofun⟩
  | methodBound id _ _ | methodTyped id _ =>
    have new : base.repository.methods.size ≤ id.index := by simpa [Change.New] using ok
    exact { h with methods := h.methods.modify_new new _ }
  | methodDeclared id modifiers =>
    refine { h with methods := h.methods.modify _ _ fun x y _ enriched => ?_ }
    have declared := enriched.toEnriched.enrich modifiers
    exact ⟨⟨declared.name, declared.modifiers⟩, enriched.id, enriched.parentType, enriched.signature,
      enriched.kind, enriched.declaredType, nofun⟩
  | attributeDeclared id modifiers =>
    -- the fields of `base` are stubs, so that making one a stub changes nothing there
    refine { h with attributes := h.attributes.modify _ _ fun x y known enriched => ?_ }
    have declared := enriched.toEnriched.enrich modifiers
    exact ⟨⟨declared.name, declared.modifiers⟩, enriched.id, enriched.parentType, enriched.declaredType,
      (stubs _ x known).symm⟩
  | written id =>
    have allowed : marked id := by simpa [Change.New] using ok
    refine { h with accesses := h.accesses.modify _ _ fun x y _ kept => .inr ⟨allowed, ?_⟩ }
    rcases kept with same | ⟨_, same⟩ <;> rw [same]
  | remember u => exact { h with registry := h.registry }

theorem Enriches.change {marked : AccessId → Prop} {base d : Draft} {c : Change}
    (h : Enriches marked base d) (stubs : base.FieldsAreStubs)
    (ok : c.New base ∨ ∃ id, marked id ∧ c = .written id) : Enriches marked base (c.apply d) := by
  have kept := h.registry.trans (c.registry_extends d)
  have result := c.result d
  generalize c.apply d = e at kept result ⊢
  cases result with
  | known => exact h
  | space fresh =>
    exact { h with order := prefix_push h.order _, namespaces := h.namespaces.push _, registry := kept }
  | type fresh =>
    exact { h with
      order := prefix_push h.order _
      types := h.types.push _
      typesIn := fun c => prefix_file (h.typesIn c) _ _
      registry := kept }
  | method fresh =>
    exact { h with
      order := prefix_push h.order _
      methods := h.methods.push _
      methodsOf := fun id => prefix_file (h.methodsOf id) _ _
      registry := kept }
  | field fresh =>
    exact { h with
      order := prefix_push h.order _
      attributes := h.attributes.push _
      attributesOf := fun id => prefix_file (h.attributesOf id) _ _
      registry := kept }
  | parameter fresh =>
    exact { h with
      order := prefix_push h.order _
      parameters := h.parameters.push _
      parameterIdsOf := fun id => prefix_file (h.parameterIdsOf id) _ _
      registry := kept }
  | direct c direct => exact h.direct stubs ok direct

/-- Fields are stubs, and what is posted for a method is there. -/
structure Tidy (d : Draft) : Prop where
  fields : d.FieldsAreStubs
  parameters : ∀ m, ∀ p ∈ d.repository.parameterIdsOf m, p.index < d.repository.parameters.size
  locals : ∀ m, ∀ v ∈ d.repository.localIdsOf m, v.index < d.repository.localVariables.size

theorem FieldsAreStubs.change {d : Draft} (h : d.FieldsAreStubs) (c : Change) : (c.apply d).FieldsAreStubs := by
  intro i a known
  rcases c.attributes_cases d with same | ⟨key, name, parent, declared, _, pushed⟩ | ⟨id, modifiers, _, modified⟩
  · rw [same] at known
    exact h i a known
  · rw [pushed, Array.getElem?_push] at known
    split at known
    · cases known; rfl
    · exact h i a known
  · rw [modified, Array.getElem?_modify] at known
    split at known
    · obtain ⟨b, _, rfl⟩ := Option.map_eq_some_iff.mp known
      rfl
    · exact h i a known

theorem posted_push [DecidableEq κ] {p : Postings κ (ElementId kind)} {xs : Array α}
    (h : ∀ k, ∀ id ∈ p.of k, id.index < xs.size) (key : κ) (x : α) :
    ∀ k, ∀ id ∈ (p.file key ⟨xs.size⟩).of k, id.index < (xs.push x).size := by
  intro k id mem
  rw [Postings.of_file, List.mem_append] at mem
  rw [Array.size_push]
  rcases mem with mem | mem
  · exact Nat.lt_succ_of_lt (h k id mem)
  · split at mem
    · cases List.mem_singleton.mp mem
      exact Nat.lt_succ_self _
    · cases mem

theorem posted_grow {p : κ → List (ElementId kind)} {m n : Nat} (h : ∀ k, ∀ id ∈ p k, id.index < m)
    (le : m ≤ n) : ∀ k, ∀ id ∈ p k, id.index < n :=
  fun k id mem => Nat.lt_of_lt_of_le (h k id mem) le

theorem Tidy.change {d : Draft} (h : Tidy d) (c : Change) : Tidy (c.apply d) := by
  have fields := h.fields.change c
  have result := c.result d
  generalize c.apply d = e at fields result ⊢
  cases result with
  | known | space | type | method | field => exact ⟨fields, h.parameters, h.locals⟩
  | parameter fresh => exact ⟨fields, posted_push h.parameters _ _, h.locals⟩
  | direct c direct =>
    cases c with
    | space | type | method | field | parameter => cases direct
    | localVariable name parent declared =>
      cases parent with
      | none =>
        have more : d.repository.localVariables.size ≤
            ((Change.localVariable name none declared).apply d).repository.localVariables.size := by
          simp [Change.apply, edit, Repository.insertLocalVariable]
        exact ⟨fields, h.parameters, posted_grow h.locals more⟩
      | some method => exact ⟨fields, h.parameters, posted_push h.locals method _⟩
    | _ => exact ⟨fields, h.parameters, h.locals⟩

theorem tidy_applyAll (ctx : Context) (history : List Operation) : Tidy (Operation.applyAll ctx history {}) :=
  Operation.applyAll_invariant ctx (fun c _ h => h.change c) (fun _ _ h => ⟨h.fields, h.parameters, h.locals⟩)
    history {} ⟨by intro i a known; simp at known, nofun, nofun⟩

theorem prefix_filterMap {ids more : List ι} {f g : ι → Option α} (posted : ids <+: more)
    (there : ∀ id ∈ ids, ∃ a, f id = some a) (kept : ∀ id a, f id = some a → g id = some a) :
    ids.filterMap f <+: more.filterMap g := by
  obtain ⟨rest, rfl⟩ := posted
  have same : ids.filterMap g = ids.filterMap f := by
    apply List.filterMap_congr
    intro id mem
    obtain ⟨a, known⟩ := there id mem
    rw [known, kept id a known]
  rw [List.filterMap_append, same]
  exact List.prefix_append _ _

theorem Enriches.parametersOf {marked : AccessId → Prop} {d e : Draft} (h : Enriches marked d e) (tidy : Tidy d)
    (m : MethodId) : d.repository.parametersOf m <+: e.repository.parametersOf m := by
  refine prefix_filterMap (h.parameterIdsOf m) (fun p mem => ?_) fun p a known => ?_
  · exact ⟨_, Array.getElem?_eq_getElem (tidy.parameters m p mem)⟩
  · obtain ⟨b, found, rfl⟩ := h.parameters p.index a known
    exact found

theorem Enriches.localsOf {marked : AccessId → Prop} {d e : Draft} (h : Enriches marked d e) (tidy : Tidy d)
    (m : MethodId) : d.repository.localsOf m <+: e.repository.localsOf m := by
  refine prefix_filterMap (h.localIdsOf m) (fun v mem => ?_) fun v a known => ?_
  · exact ⟨_, Array.getElem?_eq_getElem (tidy.locals m v mem)⟩
  · obtain ⟨b, found, rfl⟩ := h.localVariables v.index a known
    exact found

theorem enriches_apply (ctx : Context) {d : Draft} (tidy : Tidy d) (op : Operation) :
    Enriches (fun id => op = .markWrite id) d (op.apply ctx d) := by
  obtain ⟨e, path, same⟩ := op.path ctx d
  have enriched : Enriches (fun id => op = .markWrite id) d e :=
    path.invariant (.refl _ d) fun c e ok h => h.change tidy.fields ok
  rw [same]
  exact { enriched with registry := enriched.registry }

end Draft

/-- After any history, an operation with any arguments enriches the draft and replaces nothing in it. Only the
marking of an access as one that writes changes an access, and only that one. -/
theorem Operation.apply_enriches (ctx : Context) (history : List Operation) (op : Operation) :
    let before := Operation.applyAll ctx history {}
    let after := op.apply ctx before
    Draft.Enriches (fun id => op = .markWrite id) before after ∧
      (∀ m, before.repository.parametersOf m <+: after.repository.parametersOf m) ∧
      ∀ m, before.repository.localsOf m <+: after.repository.localsOf m := by
  intro before after
  have tidy : Draft.Tidy before := Draft.tidy_applyAll ctx history
  have enriched := Draft.enriches_apply ctx tidy op
  exact ⟨enriched, enriched.parametersOf tidy, enriched.localsOf tidy⟩

end Famix
