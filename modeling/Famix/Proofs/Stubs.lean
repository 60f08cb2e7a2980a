import Famix.Proofs.Visibility

/-!
What is declared and what is only referred to. A type or a method stops being a stub when it is declared, or when it is
made for an anonymous class or an initializer, and by nothing else; all other elements are made with the flag that they
keep. Of all that is declared, and of all that is known by a binding, a model also says who may use it.
-/
namespace Famix

open Java (TypeRef TypeBinding TypeDecl AnonymousClass MethodDecl InitializerDecl)

section Stores

variable {P : α → Prop} {xs : Array α} {i : Nat}

theorem given_push_of_not {y : α} (lacks : ¬ P y) :
    (∃ x, (xs.push y)[i]? = some x ∧ P x) ↔ ∃ x, xs[i]? = some x ∧ P x := by
  rw [Array.getElem?_push]
  by_cases last : i = xs.size
  · subst last
    simp [lacks]
  · rw [if_neg last]

theorem given_push {y : α} (has : P y) :
    (∃ x, (xs.push y)[i]? = some x ∧ P x) ↔ (∃ x, xs[i]? = some x ∧ P x) ∨ xs.size = i := by
  rw [Array.getElem?_push]
  by_cases last : i = xs.size
  · subst last
    simp [has]
  · rw [if_neg last]
    simp [Ne.symm last]

theorem given_modify_same (j : Nat) {f : α → α} (same : ∀ x, P (f x) ↔ P x) :
    (∃ x, (xs.modify j f)[i]? = some x ∧ P x) ↔ ∃ x, xs[i]? = some x ∧ P x := by
  rw [Array.getElem?_modify]
  split
  · simp [same]
  · rfl

theorem given_modify {j : Nat} {f : α → α} (gives : ∀ x, P (f x)) :
    (∃ x, (xs.modify j f)[i]? = some x ∧ P x) ↔ (∃ x, xs[i]? = some x ∧ P x) ∨ j = i ∧ i < xs.size := by
  rw [Array.getElem?_modify]
  split
  · next here =>
    constructor
    · rintro ⟨x, known, -⟩
      obtain ⟨y, old, -⟩ := Option.map_eq_some_iff.mp known
      exact .inr ⟨here, (Array.getElem?_eq_some_iff.mp old).1⟩
    · intro given
      have inside : i < xs.size := by
        rcases given with ⟨x, known, -⟩ | ⟨-, inside⟩
        · exact (Array.getElem?_eq_some_iff.mp known).1
        · exact inside
      rw [Array.getElem?_eq_getElem inside]
      exact ⟨_, rfl, gives _⟩
  · next elsewhere => simp [elsewhere]

end Stores

namespace Draft

/-- The type is there, and is no stub. -/
def TypeDeclared (id : TypeId) (d : Draft) : Prop := ∃ t, d.repository.type? id = some t ∧ t.isStub = false

/-- The method is there, and is no stub. -/
def MethodDeclared (id : MethodId) (d : Draft) : Prop := ∃ m, d.repository.method? id = some m ∧ m.isStub = false

/-- From `d` to `e` these types and methods stop being stubs, and no others. -/
structure Marks (types : TypeId → Prop) (methods : MethodId → Prop) (d e : Draft) : Prop where
  types : ∀ id, TypeDeclared id e ↔ TypeDeclared id d ∨ types id
  methods : ∀ id, MethodDeclared id e ↔ MethodDeclared id d ∨ methods id

/-- From `d` to `e` nothing stops being a stub. -/
def Hushed (d e : Draft) : Prop := Marks (fun _ => False) (fun _ => False) d e

namespace Marks

variable {types moreTypes : TypeId → Prop} {methods moreMethods : MethodId → Prop} {d e f : Draft}

theorem trans (h : Marks types methods d e) (k : Marks moreTypes moreMethods e f) :
    Marks (fun id => types id ∨ moreTypes id) (fun id => methods id ∨ moreMethods id) d f where
  types id := by rw [k.types, h.types, or_assoc]
  methods id := by rw [k.methods, h.methods, or_assoc]

theorem congr (h : Marks types methods d e) (sameTypes : ∀ id, types id ↔ moreTypes id)
    (sameMethods : ∀ id, methods id ↔ moreMethods id) : Marks moreTypes moreMethods d e where
  types id := by rw [h.types, sameTypes]
  methods id := by rw [h.methods, sameMethods]

theorem after (hushed : Hushed d e) (h : Marks types methods e f) : Marks types methods d f :=
  (hushed.trans h).congr (fun _ => or_iff_right not_false) fun _ => or_iff_right not_false

theorem before (h : Marks types methods d e) (hushed : Hushed e f) : Marks types methods d f :=
  (h.trans hushed).congr (fun _ => or_iff_left not_false) fun _ => or_iff_left not_false

end Marks

section Changes

variable {d e : Draft}

theorem types_unmarked (same : ∀ id, TypeDeclared id e ↔ TypeDeclared id d) (id : TypeId) :
    TypeDeclared id e ↔ TypeDeclared id d ∨ False := (same id).trans (or_iff_left not_false).symm

theorem methods_unmarked (same : ∀ id, MethodDeclared id e ↔ MethodDeclared id d) (id : MethodId) :
    MethodDeclared id e ↔ MethodDeclared id d ∨ False := (same id).trans (or_iff_left not_false).symm

theorem types_same (same : e.repository.types = d.repository.types) (id : TypeId) :
    TypeDeclared id e ↔ TypeDeclared id d := by
  unfold TypeDeclared Repository.type?
  rw [same]

theorem methods_same (same : e.repository.methods = d.repository.methods) (id : MethodId) :
    MethodDeclared id e ↔ MethodDeclared id d := by
  unfold MethodDeclared Repository.method?
  rw [same]

theorem hushed_of_same (types : e.repository.types = d.repository.types)
    (methods : e.repository.methods = d.repository.methods) : Hushed d e :=
  ⟨types_unmarked (types_same types), methods_unmarked (methods_same methods)⟩

theorem hushed_change {c : Change} (quiet : c.Quiet) (d : Draft) : Hushed d (c.apply d) := by
  have result := c.result d
  generalize c.apply d = e at result ⊢
  cases result with
  | known | space | field | parameter => exact hushed_of_same rfl rfl
  | type => exact ⟨types_unmarked fun _ => given_push_of_not nofun, methods_unmarked (methods_same rfl)⟩
  | method => exact ⟨types_unmarked (types_same rfl), methods_unmarked fun _ => given_push_of_not nofun⟩
  | direct c direct =>
    cases c with
    | space | type | method | field | parameter => cases direct
    | initializer | typeOpened | typeDeclared | methodDeclared => exact quiet.elim
    | typeModifiers id | typeKind id =>
      exact ⟨types_unmarked fun _ => given_modify_same id.index fun _ => .rfl, methods_unmarked (methods_same rfl)⟩
    | methodBound id | methodTyped id =>
      exact ⟨types_unmarked (types_same rfl), methods_unmarked fun _ => given_modify_same id.index fun _ => .rfl⟩
    | _ => exact hushed_of_same rfl rfl

theorem Path.hushed (path : Path Change.Quiet d e) : Hushed d e :=
  path.invariant (hushed_of_same rfl rfl) fun _ e quiet hushed => Marks.after hushed (hushed_change quiet e)

/-- What marks a type that is there leaves it declared, whatever it was before. -/
theorem marks_updateType {id : TypeId} (there : Present id d) {f : TypeEntity → TypeEntity}
    (declares : ∀ t, (f t).isStub = false) :
    Marks (fun x => id = x) (fun _ => False) d (d.edit (·.updateType id f)) where
  types x := by
    refine (given_modify declares).trans (or_congr_right ?_)
    exact ⟨fun marked => congrArg ElementId.mk marked.1, fun same => same ▸ ⟨rfl, there⟩⟩
  methods := methods_unmarked (methods_same rfl)

theorem marks_updateMethod {id : MethodId} (there : Present id d) {f : MethodEntity → MethodEntity}
    (declares : ∀ m, (f m).isStub = false) :
    Marks (fun _ => False) (fun x => id = x) d (d.edit (·.updateMethod id f)) where
  types := types_unmarked (types_same rfl)
  methods x := by
    refine (given_modify declares).trans (or_congr_right ?_)
    exact ⟨fun marked => congrArg ElementId.mk marked.1, fun same => same ▸ ⟨rfl, there⟩⟩

theorem marks_initializer (parent : TypeId) (modifiers : ModifierSet) (d : Draft) :
    Marks (fun _ => False) (fun x => ⟨d.repository.methods.size⟩ = x) d
      ((Change.initializer parent modifiers).apply d) where
  types := types_unmarked (types_same rfl)
  methods x := by
    refine (given_push (P := fun m : MethodEntity => m.isStub = false) rfl).trans (or_congr_right ?_)
    exact ⟨fun last => congrArg ElementId.mk last, fun same => congrArg ElementId.index same⟩

end Changes

section Steps

variable (ctx : Context) {d : Draft}

theorem marks_typeOfDecl (agree : d.registry.Matches d.repository) (decl : TypeDecl) :
    Marks (fun id => (typeOfDecl ctx decl d).1 = id) (fun _ => False) d (typeOfDecl ctx decl d).2 := by
  rw [typeOfDecl_eq]
  have there := finds_typeWithin ctx decl d agree
  exact .after ((builds_typeWithin ctx decl).quiet.path d).hushed (marks_updateType there fun _ => rfl)

theorem marks_typeOfAnonymous (agree : d.registry.Matches d.repository) (a : AnonymousClass) (t : TypeRef) :
    Marks (fun id => (typeOfAnonymous ctx a t d).1 = id ∧ ¬ Present id d) (fun _ => False) d
      (typeOfAnonymous ctx a t d).2 := by
  generalize within : (anonymousContainer d).2 = e
  have path : Path (fun _ => True) d e := within ▸ builds_anonymousContainer.any.path d
  have hushed : Hushed d e := within ▸ (builds_anonymousContainer.quiet.path d).hushed
  have size : e.repository.types.size = d.repository.types.size :=
    congrArg Array.size (within ▸ anonymousContainer_types d)
  rcases typeOfAnonymous_cases ctx a t within with ⟨key, id, looked, run⟩ | ⟨key, name, c, looked, run⟩
  · rw [run]
    have there : Present id d := Nat.lt_of_lt_of_eq ((path.agree agree).types.leads _ _ looked) size
    refine hushed.congr (fun x => ?_) fun _ => .rfl
    exact ⟨False.elim, fun made => made.2 (made.1 ▸ there)⟩
  · rw [run]
    have absent : ¬ Present (⟨e.repository.types.size⟩ : TypeId) d := Nat.not_lt_of_le (Nat.le_of_eq size.symm)
    have added : Hushed e (e.addType key name c (anonymousKind ctx a) looked) := by
      have quiet := hushed_change (c := .type key name c (anonymousKind ctx a)) trivial e
      rw [Change.apply, internType_of_none looked] at quiet
      exact quiet
    have there : Present (⟨e.repository.types.size⟩ : TypeId) (e.addType key name c (anonymousKind ctx a) looked) :=
      (present_addType looked).mpr (.inr rfl)
    have opened := marks_updateType there (f := fun x => { x with isStub := false }) fun _ => rfl
    have linked := opened.before ((builds_inheritRef ctx ⟨e.repository.types.size⟩ t).quiet.path _).hushed
    refine (Marks.after hushed (Marks.after added linked)).congr (fun x => ?_) fun _ => .rfl
    exact ⟨fun same => ⟨same, same ▸ absent⟩, fun made => made.1⟩

theorem marks_methodOfDecl (agree : d.registry.Matches d.repository) (decl : MethodDecl) :
    Marks (fun _ => False) (fun id => (methodOfDecl ctx decl d).1 = id) d (methodOfDecl ctx decl d).2 := by
  rw [methodOfDecl_eq]
  have owned := builds_ownerOrUnknown.quiet.path d
  have found := (builds_methodWithin ctx decl (ownerOrUnknown d).1).path (ownerOrUnknown d).2
  obtain ⟨m, known, -⟩ := findable_methodWithin ctx (owned.agree agree) decl (ownerOrUnknown d).1
  exact .after (owned.trans found).hushed (marks_updateMethod (Repository.holds_method known) fun _ => rfl)

theorem marks_initializerMethod (decl : InitializerDecl) (d : Draft) :
    Marks (fun _ => False) (fun id => (initializerMethod decl d).1 = id) d (initializerMethod decl d).2 :=
  .after (builds_ownerOrUnknown.quiet.path d).hushed (marks_initializer (ownerOrUnknown d).1 _ (ownerOrUnknown d).2)

end Steps

/-- The elements whose flag never changes: parameters are always declared, the others are always stubs. -/
structure Flagged (d : Draft) : Prop where
  parameters : Throughout (·.isStub = false) d.repository.parameters
  namespaces : Throughout (·.isStub = true) d.repository.namespaces
  attributes : d.FieldsAreStubs
  localVariables : Throughout (·.isStub = true) d.repository.localVariables

theorem Flagged.change {d : Draft} (h : Flagged d) (c : Change) : Flagged (c.apply d) := by
  have fields := h.attributes.change c
  have result := c.result d
  generalize c.apply d = e at fields result ⊢
  cases result with
  | known | type | method | field => exact { h with attributes := fields }
  | space => exact { h with namespaces := h.namespaces.push rfl }
  | parameter => exact { h with parameters := h.parameters.push rfl }
  | direct c direct =>
    cases c with
    | space | type | method | field | parameter => cases direct
    | localVariable => exact { h with localVariables := h.localVariables.push rfl }
    | _ => exact { h with attributes := fields }

theorem flagged_applyAll (ctx : Context) (history : List Operation) :
    Flagged (Operation.applyAll ctx history {}) :=
  Operation.applyAll_invariant ctx (fun c _ flagged => flagged.change c) (fun _ _ flagged => { flagged with })
    history {} ⟨.empty, .empty, Throughout.empty, .empty⟩

end Draft

namespace Operation

open Draft (Marks Hushed BuildsOnly Clothed)

/-- Whether an operation declares the type: it answers with the type for a declaration, or makes it for an anonymous
class. -/
def DeclaresType (ctx : Context) (id : TypeId) (op : Operation) (d : Draft) : Prop :=
  match op with
  | .typeOfDecl decl => (Draft.typeOfDecl ctx decl d).1 = id
  | _ => op.MakesAnonymous ctx id d

/-- Whether an operation declares the method: it answers with the method for a declaration or for an initializer. -/
def DeclaresMethod (ctx : Context) (id : MethodId) (op : Operation) (d : Draft) : Prop :=
  match op with
  | .methodOfDecl decl => (Draft.methodOfDecl ctx decl d).1 = id
  | .initializerMethod decl => (Draft.initializerMethod decl d).1 = id
  | _ => False

/-- The step lemma: an operation marks what it declares. -/
theorem marks_apply (ctx : Context) (op : Operation) {d : Draft} (agree : d.registry.Matches d.repository) :
    Marks (fun id => op.DeclaresType ctx id d) (fun id => op.DeclaresMethod ctx id d) d (op.apply ctx d) := by
  have quiet : ∀ {α : Type} {f : Drafting α}, BuildsOnly Change.Quiet f → Hushed d (f d).2 :=
    fun builds => (builds.path d).hushed
  cases op with
  | enter | leave | currentMethod | ownerType | currentParameter | markWrite => exact Draft.hushed_of_same rfl rfl
  | ensureNamespace => exact quiet (Draft.builds_ensureNamespace _).quiet
  | unknownNamespace => exact quiet Draft.builds_unknownNamespace.quiet
  | unknownType => exact quiet Draft.builds_unknownType.quiet
  | typeOfBinding => exact quiet (Draft.builds_typeOfBinding ctx _).quiet
  | typeOfRef => exact quiet (Draft.builds_typeOfRef ctx _).quiet
  | typeOfExpr => exact quiet (Draft.builds_typeOfExpr _).quiet
  | typeOfDecl decl => exact Draft.marks_typeOfDecl ctx agree decl
  | typeOfAnonymous a t => exact Draft.marks_typeOfAnonymous ctx agree a t
  | methodOfBinding => exact quiet (Draft.builds_methodOfBinding ctx _).quiet
  | methodOfDecl decl => exact Draft.marks_methodOfDecl ctx agree decl
  | initializerMethod decl => exact Draft.marks_initializerMethod decl d
  | unresolvedMethod => exact quiet (Draft.builds_unresolvedMethod _).quiet
  | parameterOfDecl => exact quiet ((Draft.builds_parameterOfDecl ctx _ _).mono fun _ ok => ok.2)
  | attributeOfFragment => exact quiet ((Draft.builds_attributeOfFragment ctx _ _).mono fun _ ok => ok.2)
  | attributeOfBinding => exact quiet (Draft.builds_attributeOfBinding ctx _).quiet
  | localVariable => exact quiet (Draft.builds_localVariable ctx _ _)
  | inherit => exact quiet (Draft.builds_inherit _ _).quiet
  | inheritBinding => exact quiet (Draft.builds_inheritBinding ctx _ _).quiet
  | inheritRef => exact quiet (Draft.builds_inheritRef ctx _ _).quiet
  | invoke => exact quiet (Draft.builds_invoke ctx _ _)
  | invokeExpr => exact quiet (Draft.builds_invokeExpr ctx _)
  | accessBinding => exact quiet (Draft.builds_accessBinding ctx _)
  | accessExpr => exact quiet (Draft.builds_accessExpr ctx _)
  | variableOfExpr => exact quiet (Draft.builds_variableOfExpr ctx _).quiet

/-- The run lemma: a history marks what its operations declare. -/
theorem marks_applyAll (ctx : Context) (history : List Operation) {d : Draft}
    (agree : d.registry.Matches d.repository) : Marks (fun id => AtSome ctx (DeclaresType ctx id) history d)
      (fun id => AtSome ctx (DeclaresMethod ctx id) history d) d (applyAll ctx history d) := by
  induction history generalizing d with
  | nil => exact Draft.hushed_of_same rfl rfl
  | cons op rest ih => exact (op.marks_apply ctx agree).trans (ih (op.apply_agree ctx agree))

/-- What stubs and visibilities say of a model, however it was built. The types that are no stubs are those that were
answered for declarations or made for anonymous classes; the methods, those that were answered for declarations or for
initializers. Parameters are never stubs; namespaces, fields and local variables always are. What was answered for a
declaration and what was made from a binding has a visibility. Beyond that, no type lacks one but those of which only
the name is known, type parameters and anonymous classes; a binding makes none of these. -/
theorem stubs_undeclared (ctx : Context) (history : List Operation) :
    let last := applyAll ctx history {}
    (∀ id, Draft.TypeDeclared id last ↔ AtSome ctx (DeclaresType ctx id) history {}) ∧
      (∀ id, Draft.MethodDeclared id last ↔ AtSome ctx (DeclaresMethod ctx id) history {}) ∧
      Draft.Flagged last ∧ AtEvery ctx (Vests ctx last) history {} ∧
      Clothed (fun id => AtSome ctx (MakesAnonymous ctx id) history {}) last ∧
      ∀ b : TypeBinding, (kindOf b).isBare = false := by
  intro last
  have marks : Draft.Marks _ _ {} last := marks_applyAll ctx history Registry.Matches.empty
  refine ⟨fun id => (marks.types id).trans (or_iff_right ?_), fun id => (marks.methods id).trans (or_iff_right ?_),
    Draft.flagged_applyAll ctx history, vests_applyAll ctx history .empty .empty, ?_, kindOf_isBare⟩
  · rintro ⟨t, known, -⟩
    cases known
  · rintro ⟨m, known, -⟩
    cases known
  · have none : Clothed (fun _ => False) {} := .empty
    exact (clothed_applyAll ctx history .empty .empty none).mono fun _ => (or_iff_right not_false).mp

end Operation

end Famix
