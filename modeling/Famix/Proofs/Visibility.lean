import Famix.Proofs.Anonymous
import Famix.Proofs.Convergence
import Famix.Proofs.Frames
import Famix.Proofs.Keying

/-!
Who may use what. Modifiers are given to an element all at once, by a binding or by a declaration, and always with a
visibility among them; no change takes them back. So an element has no modifiers at all or has a visibility, and a type
is left without one only if nothing but its name is known, or if it is a type parameter or an anonymous class.
Initializers alone are made with modifiers of their own.
-/
namespace Famix

open Java (TypeRef TypeBinding TypeDecl AnonymousClass MethodBinding MethodIndex MethodDecl Fragment FieldDecl Expr
  methodSignature)

namespace NamedEntity

/-- Some modifier says who may use the entity. -/
def Visible (e : NamedEntity) : Prop :=
  .publicAccess ∈ e.modifiers ∨ .protectedAccess ∈ e.modifiers ∨ .privateAccess ∈ e.modifiers ∨
    .packageAccess ∈ e.modifiers

/-- An entity without any modifiers, or with a visibility. -/
def Modest (e : NamedEntity) : Prop := e.modifiers.isEmpty = true ∨ e.Visible

theorem visible_declared (e : NamedEntity) (modifiers : List Modifier) :
    { e with modifiers := .declared modifiers }.Visible := by
  obtain ⟨m, listed, visibility⟩ := ModifierSet.exists_visibility modifiers
  cases m with
  | publicAccess => exact .inl listed
  | protectedAccess => exact .inr (.inl listed)
  | privateAccess => exact .inr (.inr (.inl listed))
  | packageAccess => exact .inr (.inr (.inr listed))
  | _ => cases visibility

theorem Modest.enrich {e : NamedEntity} (h : e.Modest) (modifiers : List Modifier) : (e.enrich modifiers).Visible := by
  unfold NamedEntity.enrich
  split
  · exact visible_declared e modifiers
  · next some => exact h.resolve_left some

theorem modest_stub (name : String) : (stub name).Modest := .inl rfl

end NamedEntity

/-- Every item of a store has a property. -/
def Throughout (P : α → Prop) (xs : Array α) : Prop := ∀ (i : Nat) (x : α), xs[i]? = some x → P x

namespace Throughout

variable {P : α → Prop} {xs : Array α}

theorem empty : Throughout P #[] := by
  intro i x known
  simp at known

theorem push (h : Throughout P xs) {y : α} (new : P y) : Throughout P (xs.push y) := by
  intro i x known
  rw [Array.getElem?_push] at known
  split at known
  · cases known
    exact new
  · exact h i x known

theorem modify (h : Throughout P xs) (j : Nat) {f : α → α} (keep : ∀ x, P x → P (f x)) :
    Throughout P (xs.modify j f) := by
  intro i x known
  rw [Array.getElem?_modify] at known
  split at known
  · obtain ⟨y, old, rfl⟩ := Option.map_eq_some_iff.mp known
    exact keep y (h i y old)
  · exact h i x known

end Throughout

/-- What an item has is kept where it is kept by all that is grown from it. -/
theorem Grown.carries {V : α → Prop} {xs ys : Array α} (h : Grown (fun _ a b => V a → V b) xs ys) {i : Nat}
    (given : ∃ x, xs[i]? = some x ∧ V x) : ∃ y, ys[i]? = some y ∧ V y := by
  obtain ⟨x, known, holds⟩ := given
  obtain ⟨y, kept, still⟩ := h i x known
  exact ⟨y, kept, still holds⟩

/-- An item to which a change was made has what the change gives. -/
theorem modify_gives {V : α → Prop} {xs : Array α} {i : Nat} (there : i < xs.size) {f : α → α}
    (gives : ∀ x, xs[i]? = some x → V (f x)) : ∃ y, (xs.modify i f)[i]? = some y ∧ V y := by
  have known : xs[i]? = some xs[i] := Array.getElem?_eq_getElem there
  refine ⟨f xs[i], ?_, gives _ known⟩
  rw [Array.getElem?_modify, if_pos rfl, known, Option.map_some]

namespace Draft

/-- Types, fields and methods have no modifiers or a visibility, initializers apart. -/
structure Modest (d : Draft) : Prop where
  types : Throughout (·.toNamedEntity.Modest) d.repository.types
  methods : Throughout (fun m => m.kind = .initializer ∨ m.toNamedEntity.Modest) d.repository.methods
  attributes : Throughout (·.toNamedEntity.Modest) d.repository.attributes

theorem Modest.empty : Modest {} := ⟨.empty, .empty, .empty⟩

theorem Modest.change {d : Draft} (h : Modest d) (c : Change) : Modest (c.apply d) := by
  have result := c.result d
  generalize c.apply d = e at result ⊢
  cases result with
  | known | space | parameter => exact { h with }
  | type fresh => exact { h with types := h.types.push (NamedEntity.modest_stub _) }
  | method fresh => exact { h with methods := h.methods.push (.inr (NamedEntity.modest_stub _)) }
  | field fresh => exact { h with attributes := h.attributes.push (NamedEntity.modest_stub _) }
  | direct c direct =>
    cases c with
    | space | type | method | field | parameter => cases direct
    | localVariable | inheritance | invocation | access | written | remember => exact { h with }
    | initializer => exact { h with methods := h.methods.push (.inl rfl) }
    | typeModifiers id modifiers =>
      exact { h with types := h.types.modify _ fun t _ => .inr (NamedEntity.visible_declared _ modifiers) }
    | typeKind | typeOpened => exact { h with types := h.types.modify _ fun _ modest => modest }
    | typeDeclared id modifiers =>
      exact { h with types := h.types.modify _ fun t modest => .inr (modest.enrich modifiers) }
    | methodBound id modifiers declared =>
      exact { h with methods := h.methods.modify _ fun m _ => .inr (.inr (NamedEntity.visible_declared _ modifiers)) }
    | methodTyped => exact { h with methods := h.methods.modify _ fun _ modest => modest }
    | methodDeclared id modifiers =>
      refine { h with methods := h.methods.modify _ fun m modest => ?_ }
      exact modest.imp (fun initializer => initializer) fun modest => .inr (modest.enrich modifiers)
    | attributeDeclared id modifiers =>
      exact { h with attributes := h.attributes.modify _ fun a modest => .inr (modest.enrich modifiers) }

theorem Path.modest {allowed : Change → Prop} {d e : Draft} (path : Path allowed d e) (h : Modest d) : Modest e :=
  path.invariant h fun c _ _ modest => modest.change c

/-- What has a visibility in `d` has one in `e`. -/
structure Shows (d e : Draft) : Prop where
  types : Grown (fun _ a b => a.toNamedEntity.Visible → b.toNamedEntity.Visible) d.repository.types e.repository.types
  methods : Grown (fun _ a b => a.toNamedEntity.Visible → b.toNamedEntity.Visible)
    d.repository.methods e.repository.methods
  attributes : Grown (fun _ a b => a.toNamedEntity.Visible → b.toNamedEntity.Visible)
    d.repository.attributes e.repository.attributes

namespace Shows

variable {d e f : Draft}

theorem refl (d : Draft) : Shows d d :=
  ⟨.refl (fun _ _ => id) _, .refl (fun _ _ => id) _, .refl (fun _ _ => id) _⟩

theorem trans (h : Shows d e) (k : Shows e f) : Shows d f where
  types := h.types.trans (fun _ _ _ _ first second => second ∘ first) k.types
  methods := h.methods.trans (fun _ _ _ _ first second => second ∘ first) k.methods
  attributes := h.attributes.trans (fun _ _ _ _ first second => second ∘ first) k.attributes

/-- No change hides anything, whatever it is made to. -/
theorem change (c : Change) (d : Draft) : Shows d (c.apply d) := by
  have same := refl d
  have result := c.result d
  generalize c.apply d = e at result ⊢
  cases result with
  | known | space | parameter => exact { same with }
  | type fresh => exact { same with types := same.types.push _ }
  | method fresh => exact { same with methods := same.methods.push _ }
  | field fresh => exact { same with attributes := same.attributes.push _ }
  | direct c direct =>
    cases c with
    | space | type | method | field | parameter => cases direct
    | localVariable | inheritance | invocation | access | written | remember => exact { same with }
    | initializer => exact { same with methods := same.methods.push _ }
    | typeModifiers id modifiers =>
      exact { same with types := same.types.modify _ _ fun _ _ _ _ _ => NamedEntity.visible_declared _ modifiers }
    | typeKind | typeOpened => exact { same with types := same.types.modify _ _ fun _ _ _ seen => seen }
    | typeDeclared id modifiers =>
      refine { same with types := same.types.modify _ _ fun x y _ seen first => ?_ }
      exact NamedEntity.Modest.enrich (.inr (seen first)) modifiers
    | methodBound id modifiers declared =>
      exact { same with methods := same.methods.modify _ _ fun _ _ _ _ _ => NamedEntity.visible_declared _ modifiers }
    | methodTyped => exact { same with methods := same.methods.modify _ _ fun _ _ _ seen => seen }
    | methodDeclared id modifiers =>
      refine { same with methods := same.methods.modify _ _ fun x y _ seen first => ?_ }
      exact NamedEntity.Modest.enrich (.inr (seen first)) modifiers
    | attributeDeclared id modifiers =>
      refine { same with attributes := same.attributes.modify _ _ fun x y _ seen first => ?_ }
      exact NamedEntity.Modest.enrich (.inr (seen first)) modifiers

theorem path {allowed : Change → Prop} (h : Path allowed d e) : Shows d e :=
  h.invariant (refl d) fun c e _ shows => shows.trans (change c e)

theorem history (ctx : Context) (history : List Operation) (d : Draft) :
    Shows d (Operation.applyAll ctx history d) :=
  Operation.applyAll_invariant (P := Shows d) ctx (fun c e shows => shows.trans (change c e))
    (fun _ _ shows => ⟨shows.types, shows.methods, shows.attributes⟩) history d (refl d)

end Shows

def VisibleType (id : TypeId) (d : Draft) : Prop := ∃ t, d.repository.type? id = some t ∧ t.toNamedEntity.Visible

def VisibleMethod (id : MethodId) (d : Draft) : Prop := ∃ m, d.repository.method? id = some m ∧ m.toNamedEntity.Visible

def VisibleAttribute (id : AttributeId) (d : Draft) : Prop :=
  ∃ a, d.repository.attribute? id = some a ∧ a.toNamedEntity.Visible

theorem VisibleType.shows {id : TypeId} {d e : Draft} (h : VisibleType id d) (shows : Shows d e) : VisibleType id e :=
  Grown.carries shows.types h

theorem VisibleMethod.shows {id : MethodId} {d e : Draft} (h : VisibleMethod id d) (shows : Shows d e) :
    VisibleMethod id e := Grown.carries shows.methods h

theorem VisibleAttribute.shows {id : AttributeId} {d e : Draft} (h : VisibleAttribute id d) (shows : Shows d e) :
    VisibleAttribute id e := Grown.carries shows.attributes h

section Given

variable {d : Draft}

theorem visible_typeModifiers {id : TypeId} (there : Present id d) (modifiers : List Modifier) :
    VisibleType id ((Change.typeModifiers id modifiers).apply d) :=
  modify_gives there fun _ _ => NamedEntity.visible_declared _ modifiers

theorem visible_typeDeclared (modest : Modest d) {id : TypeId} (there : Present id d) (modifiers : List Modifier) :
    VisibleType id ((Change.typeDeclared id modifiers).apply d) :=
  modify_gives there fun t known => (modest.types _ t known).enrich modifiers

theorem visible_methodBound {id : MethodId} (there : Present id d) (modifiers : List Modifier)
    (declared : Option TypeId) : VisibleMethod id ((Change.methodBound id modifiers declared).apply d) :=
  modify_gives there fun _ _ => NamedEntity.visible_declared _ modifiers

theorem visible_methodDeclared (modest : Modest d) {id : MethodId} (findable : d.repository.Findable id)
    (modifiers : List Modifier) : VisibleMethod id ((Change.methodDeclared id modifiers).apply d) := by
  obtain ⟨m, known, ordinary⟩ := findable
  refine modify_gives (Repository.holds_method known) fun n same => ?_
  cases known.symm.trans same
  exact ((modest.methods _ m known).resolve_left ordinary).enrich modifiers

theorem visible_attributeDeclared (modest : Modest d) {id : AttributeId} (there : Present id d)
    (modifiers : List Modifier) : VisibleAttribute id ((Change.attributeDeclared id modifiers).apply d) :=
  modify_gives there fun a known => (modest.attributes _ a known).enrich modifiers

end Given

end Draft

/-- The kinds of types that are made without modifiers: those of which only the name is known, and type parameters. -/
def TypeKind.isBare : TypeKind → Bool
  | .unknown | .typeParameter => true
  | _ => false

/-- No bound type is of a bare kind. -/
theorem kindOf_isBare (b : TypeBinding) : (kindOf b).isBare = false := by
  unfold kindOf
  repeat' split
  all_goals rfl

namespace Draft

/-- Every type has a visibility, but for those of a bare kind and some others. -/
def Clothed (others : TypeId → Prop) (d : Draft) : Prop :=
  ∀ id t, d.repository.type? id = some t → others id ∨ t.kind.isBare = true ∨ t.toNamedEntity.Visible

namespace Clothed

variable {others : TypeId → Prop} {d : Draft}

theorem empty : Clothed others {} := by
  intro id t known
  cases known

theorem mono (h : Clothed others d) {more : TypeId → Prop} (imp : ∀ id, others id → more id) : Clothed more d :=
  fun id t known => (h id t known).imp_left (imp id)

/-- A type that has a visibility need not be excepted. -/
theorem drop {id : TypeId} (h : Clothed (fun x => others x ∨ x = id) d) (visible : VisibleType id d) :
    Clothed others d := by
  intro x t known
  rcases h x t known with (excepted | rfl) | rest
  · exact .inl excepted
  · obtain ⟨u, same, seen⟩ := visible
    cases known.symm.trans same
    exact .inr (.inr seen)
  · exact .inr rest

theorem of_types (h : Clothed others d) {e : Draft} (same : e.repository.types = d.repository.types) :
    Clothed others e := by
  intro id t known
  apply h id t
  rw [← known]
  exact congrArg (·[id.index]?) same.symm

theorem update (h : Clothed others d) (id : TypeId) {f : TypeEntity → TypeEntity} (kind : ∀ t, (f t).kind = t.kind)
    (shows : ∀ t, t.toNamedEntity.Visible → (f t).toNamedEntity.Visible) :
    Clothed others (d.edit (·.updateType id f)) := by
  intro x t known
  have known : (d.repository.types.modify id.index f)[x.index]? = some t := known
  rw [Array.getElem?_modify] at known
  split at known
  · obtain ⟨u, old, rfl⟩ := Option.map_eq_some_iff.mp known
    rw [kind u]
    exact (h x u old).imp_right fun rest => rest.imp_right (shows u)
  · exact h x t known

theorem mild (h : Clothed others d) {c : Change} (mild : c.Mild) : Clothed others (c.apply d) := by
  have result := c.result d
  generalize c.apply d = e at result ⊢
  cases result with
  | known => exact h
  | space | method | field | parameter => exact h.of_types rfl
  | type => exact mild.elim
  | direct c direct =>
    cases c with
    | space | type | method | field | parameter => cases direct
    | inheritance | typeKind => exact mild.elim
    | typeModifiers id modifiers =>
      refine h.update id ?_ ?_
      · exact fun _ => rfl
      · exact fun _ _ => NamedEntity.visible_declared _ modifiers
    | typeOpened id =>
      refine h.update id ?_ ?_
      · exact fun _ => rfl
      · exact fun _ seen => seen
    | typeDeclared id modifiers =>
      refine h.update id ?_ ?_
      · exact fun _ => rfl
      · exact fun _ seen => NamedEntity.Modest.enrich (.inr seen) modifiers
    | _ => exact h.of_types rfl

theorem link (h : Clothed others d) (subclass superclass : TypeId) :
    Clothed others ((Change.inheritance subclass superclass).apply d) := h.of_types rfl

/-- A type that has a visibility may get any kind. -/
theorem setKind (h : Clothed others d) {id : TypeId} (visible : VisibleType id d) (kind : TypeKind) :
    Clothed others (d.setKind id kind) := by
  have shown : VisibleType id (d.setKind id kind) := visible.shows (.change (.typeKind id kind) d)
  have others : Clothed (fun x => others x ∨ x = id) (d.setKind id kind) := by
    intro x t known
    by_cases same : id.index = x.index
    · exact .inl (.inr (congrArg ElementId.mk same.symm))
    · have old : d.repository.type? x = some t :=
        ((Array.getElem?_modify ..).trans (if_neg same)).symm.trans known
      exact (h x t old).imp_left .inl
  exact others.drop shown

/-- A new type is excepted, unless it is of a bare kind. -/
theorem type (h : Clothed others d) (key name : String) (c : Container) (kind : TypeKind)
    (new : d.registry.types.get? key = none → kind.isBare = true ∨ others ⟨d.repository.types.size⟩) :
    Clothed others (internType key name c kind d).2 := by
  cases looked : d.registry.types.get? key with
  | some id =>
    rw [internType_of_some looked]
    exact h
  | none =>
    rw [internType_of_none looked]
    intro id t known
    rcases (present_addType looked).mp (Repository.holds_type known) with old | rfl
    · exact h id t ((type?_addType_old looked old).symm.trans known)
    · cases known.symm.trans (type?_addType_new looked)
      exact (new looked).elim (fun bare => .inr (.inl bare)) .inl

theorem unknownTypeNamed (h : Clothed others d) (name : String) : Clothed others (unknownTypeNamed name d).2 := by
  have space : Clothed others (unknownNamespace d).2 := unknownNamespace_mild (fun _ _ mild h => h.mild mild) h
  exact space.type _ name (.ns (unknownNamespace d).1) .unknown fun _ => .inl rfl

theorem ensureTypeParameters (h : Clothed others d) (owner : TypeId) (key : String) (names : List String) :
    Clothed others (ensureTypeParameters owner key names d).draft := by
  induction names generalizing d with
  | nil => exact h
  | cons name names ih => exact ih (h.type _ name (.type owner) .typeParameter fun _ => .inl rfl)

end Clothed

theorem started_visible {table : Java.BindingTable} {b : TypeBinding} {c : Container} {d : Draft}
    (unmet : d.registry.types.get? (typeKey table b) = none) :
    VisibleType ⟨d.repository.types.size⟩ (started table b c d) := by
  refine visible_typeModifiers (d := (internType (typeKey table b) b.name c (kindOf b) d).2) ?_ b.modifiers
  rw [internType_of_none unmet]
  exact (present_addType unmet).mpr (.inr rfl)

/-- A type that is to be completed has its modifiers. -/
def Task.Fitted (d : Draft) : Task → Prop
  | .complete _ id => VisibleType id d
  | _ => True

/-- Resolution gives a bound type its modifiers before it goes on, and its kind only after that. -/
theorem Resolves.clothed {others : TypeId → Prop} {table : Java.BindingTable} {task : Task} {d e : Draft}
    {found : Found} (run : Resolves table task d found e) (h : Clothed others d) (fitted : task.Fitted d) :
    Clothed others e := by
  induction run with
  | inside _ _ ih => exact ih h trivial
  | beyond => exact unknownType_mild (fun _ _ mild h => h.mild mild) (h.unknownTypeNamed unknownName)
  | finished | unlinked | plain | known => exact h
  | next _ _ ihFirst ihOthers => exact ihOthers (ihFirst h trivial) trivial
  | @link s id i is d e f _ _ ihFirst ihOthers => exact ihOthers ((ihFirst h trivial).link s id) trivial
  | enclosed _ _ _ ih => exact ih h trivial
  | @free b d _ => exact h.mild (c := .space (b.package.getD unknownName)) trivial
  | @parameterized b id erasure arguments d e f _ erased applied ihErased ihApplied =>
    have visible : VisibleType id f := fitted.shows ((Shows.path erased.path).trans (.path applied.path))
    exact (ihApplied (ihErased h trivial) trivial).setKind visible _
  | @generic b id d _ =>
    have path : Path (Change.Resolving fun _ => True) d
        (Draft.ensureTypeParameters id (typeKey table b) b.typeParameters d).draft := ensureTypeParameters_path ..
    exact (h.ensureTypeParameters id _ _).setKind (fitted.shows (.path path)) _
  | met _ _ _ ihPlace => exact ihPlace h trivial
  | @made b c d e f g _ _ unmet links _ ihPlace ihLinks ihCompletion =>
    have visible := started_visible (c := c) unmet
    have placed : Clothed (fun x => others x ∨ x = ⟨e.repository.types.size⟩) e :=
      (ihPlace h trivial).mono fun _ => .inl
    have interned := placed.type (typeKey table b) b.name c (kindOf b) fun _ => .inr (.inr rfl)
    have start : Clothed others (started table b c e) :=
      (interned.mild (c := .typeModifiers ⟨e.repository.types.size⟩ b.modifiers) trivial).drop visible
    exact ihCompletion (ihLinks start trivial) (visible.shows (.path links.path))

theorem referable_clothed (ctx : Context) (others : TypeId → Prop) :
    Referable ctx (fun _ => True) (Clothed others) where
  bound i d h := (resolveIndex_runs ctx.bindings i d).clothed h trivial
  written name _ _ h := h.unknownTypeNamed name
  unknown := trivial
  mild _ _ mild h := h.mild mild

/-- The type of a declaration, before it is marked as declared. -/
def typeWithin (ctx : Context) (decl : TypeDecl) : Drafting TypeId :=
  match ctx.bindings.resolveType decl.binding decl with
  | .resolved i _ => typeOfBinding ctx i
  | .unresolved decl => typeOfUnboundDecl ctx decl

section Steps

variable (ctx : Context)

theorem typeOfDecl_eq (decl : TypeDecl) (d : Draft) : typeOfDecl ctx decl d = ((typeWithin ctx decl d).1,
    (Change.typeDeclared (typeWithin ctx decl d).1 decl.modifiers).apply (typeWithin ctx decl d).2) := by
  unfold typeOfDecl typeWithin
  cases ctx.bindings.resolveType decl.binding decl <;> rfl

theorem builds_typeWithin (decl : TypeDecl) : BuildsOnly Change.Refers (typeWithin ctx decl) := by
  unfold typeWithin
  cases ctx.bindings.resolveType decl.binding decl with
  | resolved i b => exact builds_typeOfBinding ctx i
  | unresolved decl => exact builds_typeOfUnboundDecl ctx decl

theorem finds_typeWithin (decl : TypeDecl) : Finds (typeWithin ctx decl) (·.element) := by
  unfold typeWithin
  cases ctx.bindings.resolveType decl.binding decl with
  | resolved i b => exact finds_typeOfBinding ctx i
  | unresolved decl => exact finds_typeOfUnboundDecl ctx decl

theorem anonymousContainer_types (d : Draft) : (anonymousContainer d).2.repository.types = d.repository.types := by
  have same : (anonymousContainer d).2 = (containerOrUnknown d).2 := by
    unfold anonymousContainer
    rw [bind_apply]
    cases (containerOrUnknown d).1 with
    | ns | type => rfl
    | method id =>
      dsimp only
      rw [get_bind_apply]
      cases (containerOrUnknown d).2.repository.method? id <;> rfl
  rw [same]
  exact (containerOrUnknown_types d).1

/-- An anonymous class is known by its key, or it is made, opened and linked to the type that it instantiates. -/
theorem typeOfAnonymous_cases (a : AnonymousClass) (t : TypeRef) {d e : Draft} (within : (anonymousContainer d).2 = e) :
    (∃ key id, e.registry.types.get? key = some id ∧ typeOfAnonymous ctx a t d = (id, e)) ∨
      ∃ key name c, ∃ fresh : e.registry.types.get? key = none, typeOfAnonymous ctx a t d =
        (⟨e.repository.types.size⟩, (inheritRef ctx ⟨e.repository.types.size⟩ t
          ((Change.typeOpened ⟨e.repository.types.size⟩).apply
            (e.addType key name c (anonymousKind ctx a) fresh))).2) := by
  subst within
  unfold typeOfAnonymous
  rw [bind_apply, get_bind_apply]
  generalize anonymousContainer d = start
  obtain ⟨c, e⟩ := start
  dsimp only
  generalize "$" ++ toString (e.repository.typesIn c).length = name
  rw [bind_apply]
  cases looked : e.registry.types.get? (e.repository.childName c name) with
  | some id =>
    rw [internType_of_some looked]
    exact .inl ⟨_, id, looked, rfl⟩
  | none =>
    rw [internType_of_none looked]
    exact .inr ⟨_, name, c, looked, rfl⟩

variable {others : TypeId → Prop}

theorem clothed_typeOfRef (t : TypeRef) : Upholds (Clothed others) (typeOfRef ctx t) :=
  upholds_typeOfRef (referable_clothed ctx others) fun _ _ => trivial

theorem clothed_inheritRef (id : TypeId) (t : TypeRef) : Upholds (Clothed others) (inheritRef ctx id t) :=
  upholds_bind (clothed_typeOfRef ctx t) fun s _ h => h.link id s

theorem clothed_inheritRefs (id : TypeId) (ts : List TypeRef) : Upholds (Clothed others) (inheritRefs ctx id ts) := by
  induction ts with
  | nil => exact upholds_pure ()
  | cons t ts ih => exact upholds_bind (clothed_inheritRef ctx id t) fun _ => ih

variable {d : Draft}

theorem clothed_typeOfUnboundDecl (decl : TypeDecl) (h : Clothed others d) :
    Clothed (fun x => others x ∨ x = (typeOfUnboundDecl ctx decl d).1) (typeOfUnboundDecl ctx decl d).2 := by
  have outer := upholds_containerOrUnknown (referable_clothed ctx others) d h
  rw [typeOfUnboundDecl_eq]
  generalize containerOrUnknown d = start at outer ⊢
  obtain ⟨c, e⟩ := start
  generalize e.repository.childName c decl.name = key
  cases looked : e.registry.types.get? key with
  | some id =>
    rw [declaredUnder_of_some ctx decl looked]
    exact outer.mono fun _ => .inl
  | none =>
    rw [declaredUnder_of_none ctx decl looked]
    have wider : Clothed (fun x => others x ∨ x = ⟨e.repository.types.size⟩) e := outer.mono fun _ => .inl
    have made := wider.type key decl.name c (declaredKind decl.kind) fun _ => .inr (.inr rfl)
    rw [internType_of_none looked] at made
    exact clothed_inheritRefs ctx _ _ _ made

theorem visible_typeOfDecl (decl : TypeDecl) (agree : d.registry.Matches d.repository) (modest : Modest d) :
    VisibleType (typeOfDecl ctx decl d).1 (typeOfDecl ctx decl d).2 := by
  rw [typeOfDecl_eq]
  have path := (builds_typeWithin ctx decl).path d
  exact visible_typeDeclared (path.modest modest) (finds_typeWithin ctx decl d agree) decl.modifiers

/-- A declared type may be made without modifiers, but they are given to it at once. -/
theorem clothed_typeOfDecl (decl : TypeDecl) (agree : d.registry.Matches d.repository) (modest : Modest d)
    (h : Clothed others d) : Clothed others (typeOfDecl ctx decl d).2 := by
  have visible := visible_typeOfDecl ctx decl agree modest
  have found : Clothed (fun x => others x ∨ x = (typeWithin ctx decl d).1) (typeWithin ctx decl d).2 := by
    unfold typeWithin
    cases ctx.bindings.resolveType decl.binding decl with
    | resolved i b => exact ((referable_clothed ctx others).bound i d h).mono fun _ => .inl
    | unresolved decl => exact clothed_typeOfUnboundDecl ctx decl h
  rw [typeOfDecl_eq] at visible ⊢
  exact (found.mild (c := .typeDeclared (typeWithin ctx decl d).1 decl.modifiers) trivial).drop visible

/-- An anonymous class is excepted only if it is made now. -/
theorem clothed_typeOfAnonymous (a : AnonymousClass) (t : TypeRef) (h : Clothed others d) :
    Clothed (fun x => others x ∨ (typeOfAnonymous ctx a t d).1 = x ∧ ¬ Present x d) (typeOfAnonymous ctx a t d).2 := by
  generalize within : (anonymousContainer d).2 = e
  have same : e.repository.types = d.repository.types := within ▸ anonymousContainer_types d
  have outer : Clothed others e := h.of_types same
  rcases typeOfAnonymous_cases ctx a t within with ⟨key, id, looked, run⟩ | ⟨key, name, c, looked, run⟩
  · rw [run]
    exact outer.mono fun _ => .inl
  · rw [run]
    have absent : ¬ Present (⟨e.repository.types.size⟩ : TypeId) d :=
      Nat.not_lt_of_le (Nat.le_of_eq (congrArg Array.size same.symm))
    have wider : Clothed (fun x => others x ∨ ⟨e.repository.types.size⟩ = x ∧ ¬ Present x d) e :=
      outer.mono fun _ => .inl
    have made := wider.type key name c (anonymousKind ctx a) fun _ => .inr (.inr ⟨rfl, absent⟩)
    rw [internType_of_none looked] at made
    exact clothed_inheritRef ctx _ t _ (made.mild (c := .typeOpened _) trivial)

theorem builds_methodWithin (decl : MethodDecl) (owner : TypeId) :
    BuildsOnly Change.Quiet (methodWithin ctx decl owner) := by
  unfold methodWithin
  cases ctx.bindings.resolveMethod decl.binding decl with
  | resolved i b => exact (builds_methodOfResolved ctx b owner).quiet
  | unresolved decl => exact (builds_methodOfUnboundDecl ctx decl owner).mono fun _ ok => ok.2

/-- The method of a declaration is found by its key, so it is no initializer. -/
theorem findable_methodWithin (agree : d.registry.Matches d.repository) (decl : MethodDecl) (owner : TypeId) :
    (methodWithin ctx decl owner d).2.repository.Findable (methodWithin ctx decl owner d).1 := by
  have after := ((builds_methodWithin ctx decl owner).path d).agree agree
  suffices registered : ∃ key, (methodWithin ctx decl owner d).2.registry.methods.get? key =
      some (methodWithin ctx decl owner d).1 by
    obtain ⟨key, registered⟩ := registered
    exact after.methods.leads key _ registered
  unfold methodWithin
  cases ctx.bindings.resolveMethod decl.binding decl with
  | resolved i b => exact ⟨_, (introduces_methodOfResolved ctx b owner d).registers⟩
  | unresolved decl => exact ⟨_, (introduces_methodOfUnboundDecl ctx decl owner d).registers⟩

end Steps

section Declarations

variable (ctx : Context) {d : Draft} (agree : d.registry.Matches d.repository) (modest : Modest d)
include agree modest

theorem visible_methodOfDecl (decl : MethodDecl) :
    VisibleMethod (methodOfDecl ctx decl d).1 (methodOfDecl ctx decl d).2 := by
  rw [methodOfDecl_eq]
  have owned := builds_ownerOrUnknown.quiet.path d
  have found := (builds_methodWithin ctx decl (ownerOrUnknown d).1).path (ownerOrUnknown d).2
  exact visible_methodDeclared ((owned.trans found).modest modest)
    (findable_methodWithin ctx (owned.agree agree) decl (ownerOrUnknown d).1) decl.modifiers

theorem visible_attributeOfFragment (fragment : Fragment) (field : FieldDecl) :
    VisibleAttribute (attributeOfFragment ctx fragment field d).1 (attributeOfFragment ctx fragment field d).2 := by
  obtain ⟨modifiers, run⟩ := attributeOfFragment_ask ctx fragment field d
  rw [run]
  have builds : BuildsOnly Change.Refers ((FieldQuery.ofFragment ctx fragment field).ask ctx) := FieldQuery.builds_ask _
  have path := builds.path d
  have there := (path.agree agree).attributes.leads _ _ (FieldQuery.ask_registers _ d)
  exact visible_attributeDeclared (path.modest modest) there modifiers

end Declarations

/-- A type that resolution makes for a binding has a visibility when it ends. -/
theorem Resolves.made_visible {table : Java.BindingTable} {b : TypeBinding} {id : TypeId} {d e : Draft}
    (run : Resolves table (.binding b) d (.type id) e)
    (unmet : (resolveContainer table b d).draft.registry.types.get? (typeKey table b) = none) : VisibleType id e := by
  cases run with
  | known known =>
    rw [(resolveContainer table b d).keeps _ _ known] at unmet
    cases unmet
  | met _ place met =>
    rw [(place.deterministic (resolveContainer_runs table b d)).2, unmet] at met
    cases met
  | made _ _ unmet links completion =>
    exact (started_visible unmet).shows ((Shows.path links.path).trans (.path completion.path))

theorem spares_ownerOrUnknown : SparesMembers ownerOrUnknown := by
  intro d
  unfold ownerOrUnknown
  rw [get_bind_apply]
  cases d.ownerType with
  | some owner => exact .refl d
  | none => exact spares_unknownType d

section Methods

variable (ctx : Context)

/-- Every method that the step makes has a visibility after it. -/
def MakesVisible (f : Drafting α) : Prop :=
  ∀ (d : Draft) (id : MethodId), Present id (f d).2 → ¬ Present id d → VisibleMethod id (f d).2

theorem makesVisible_after {x : Drafting α} {f : α → Drafting β} (spares : SparesMembers x)
    (makes : ∀ a, MakesVisible (f a)) : MakesVisible (x >>= f) := by
  intro d id there absent
  have size := congrArg Array.size (spares d).methods
  exact makes (x d).1 (x d).2 id there fun old => absent (Nat.lt_of_lt_of_eq old size)

theorem makesVisible_before {x : Drafting α} {f : α → Drafting β} (makes : MakesVisible x)
    (path : ∀ a d, Path (fun _ => True) d (f a d).2)
    (size : ∀ a d, (f a d).2.repository.methods.size = d.repository.methods.size) : MakesVisible (x >>= f) := by
  intro d id there absent
  have made := makes d id (Nat.lt_of_lt_of_eq there (size (x d).1 (x d).2)) absent
  exact made.shows (.path (path (x d).1 (x d).2))

/-- A method is made only if its key is new, and then it gets the modifiers of its binding. -/
theorem makesVisible_methodOfResolved (b : MethodBinding) (owner : TypeId) :
    MakesVisible (methodOfResolved ctx b owner) := by
  intro d id there absent
  have introduces := introduces_methodOfResolved ctx b owner d
  generalize signature_eq : methodSignature b.name (b.parameterTypes.map (boundTypeText ctx)) = signature at introduces
  cases looked : d.registry.methods.get? (d.repository.typeName owner ++ "." ++ signature) with
  | some known =>
    rw [introduces.known known looked] at there
    exact absurd there absent
  | none =>
    obtain ⟨-, size, -⟩ := introduces.made looked
    have last : id = ⟨d.repository.methods.size⟩ := by
      have below : id.index < (methodOfResolved ctx b owner d).2.repository.methods.size := there
      have above : ¬ id.index < d.repository.methods.size := absent
      exact congrArg ElementId.mk (show id.index = d.repository.methods.size by omega)
    let e := d.addMethod (d.repository.typeName owner ++ "." ++ signature) (.stub b.name) owner signature
      (methodKind b.isConstructor)
    have run : methodOfResolved ctx b owner d = (⟨d.repository.methods.size⟩,
        (Change.methodBound ⟨d.repository.methods.size⟩ b.modifiers (returnedType ctx b e).1).apply
          (returnedType ctx b e).2) := by
      unfold methodOfResolved memberKey
      rw [bind_apply, get_bind_apply]
      dsimp only [pure, StateT.pure]
      rw [signature_eq, bind_apply, internMethod_of_none looked]
      rfl
    have added : Present (⟨d.repository.methods.size⟩ : MethodId) e :=
      Nat.lt_of_lt_of_eq (Nat.lt_succ_self _) (Array.size_push _).symm
    rw [run, last]
    exact visible_methodBound (((builds_returnedType ctx b).path e).holds added) b.modifiers _

theorem makesVisible_methodOfBinding {i : MethodIndex} {b : MethodBinding}
    (listed : ctx.bindings.methodAt? i = some b) : MakesVisible (methodOfBinding ctx i) := by
  unfold methodOfBinding
  rw [listed]
  exact makesVisible_after (spares_typeOfBinding? ctx _) fun owner => makesVisible_methodOfResolved ctx b owner

theorem resolveMethod_of_bound {table : Java.BindingTable} {i : Option MethodIndex} {b : MethodBinding}
    (bound : i.bind table.methodAt? = some b) (hint : β) :
    ∃ j, table.resolveMethod i hint = .resolved j b ∧ table.methodAt? j = some b := by
  obtain ⟨j, rfl, listed⟩ := Option.bind_eq_some_iff.mp bound
  refine ⟨j, ?_, listed⟩
  unfold Java.BindingTable.methodAt? at listed
  simp only [Java.BindingTable.resolveMethod, Java.BindingTable.resolveIn, listed]

theorem makesVisible_methodOfDecl {decl : MethodDecl} {b : MethodBinding}
    (bound : decl.binding.bind ctx.bindings.methodAt? = some b) : MakesVisible (methodOfDecl ctx decl) := by
  obtain ⟨j, resolved, -⟩ := resolveMethod_of_bound bound decl
  rw [methodOfDecl_eq]
  refine makesVisible_after spares_ownerOrUnknown fun owner => ?_
  unfold methodWithin
  rw [resolved]
  refine makesVisible_before (makesVisible_methodOfResolved ctx b owner) (fun id d => ?_) fun _ _ => Array.size_modify
  exact .single (.methodDeclared id decl.modifiers) trivial

theorem makesVisible_invoke {binding : Option MethodIndex} {b : MethodBinding}
    (bound : binding.bind ctx.bindings.methodAt? = some b) (signature : String) :
    MakesVisible (invoke ctx binding signature) := by
  obtain ⟨j, resolved, listed⟩ := resolveMethod_of_bound bound signature
  unfold invoke
  rw [resolved]
  refine makesVisible_before (makesVisible_methodOfBinding ctx listed) (fun candidate d => ?_) fun _ _ => rfl
  exact .single (.invocation d.scope.currentMethod candidate signature) trivial

theorem makesVisible_invokeExpr {e : Expr} {b : MethodBinding}
    (bound : (calledBinding e).bind ctx.bindings.methodAt? = some b) : MakesVisible (invokeExpr ctx e) := by
  unfold invokeExpr
  cases e.callSignature with
  | none => exact fun _ _ there absent => absurd there absent
  | some signature => exact makesVisible_invoke ctx bound signature

end Methods

end Draft

namespace Operation

open Draft (Clothed Upholds Modest Present Shows VisibleType VisibleMethod VisibleAttribute MakesVisible)

theorem modest_apply (ctx : Context) (op : Operation) {d : Draft} (h : Modest d) : Modest (op.apply ctx d) := by
  obtain ⟨e, path, same⟩ := op.path ctx d
  rw [same]
  exact { path.modest h with }

/-- Whether an operation makes a type for an anonymous class. -/
def MakesAnonymous (ctx : Context) (id : TypeId) (op : Operation) (d : Draft) : Prop :=
  match op with
  | .typeOfAnonymous a t => (Draft.typeOfAnonymous ctx a t d).1 = id ∧ ¬ Present id d
  | _ => False

/-- An operation leaves no type without a visibility but those of a bare kind and the anonymous class it makes. -/
theorem clothed_apply (ctx : Context) (op : Operation) {others : TypeId → Prop} {d : Draft}
    (agree : d.registry.Matches d.repository) (modest : Modest d) (h : Clothed others d) :
    Clothed (fun id => others id ∨ op.MakesAnonymous ctx id d) (op.apply ctx d) := by
  have refs := Draft.referable_clothed ctx others
  have built : ∀ {α : Type} {f : Drafting α}, Upholds (Clothed others) f →
      Clothed (fun id => others id ∨ op.MakesAnonymous ctx id d) (f d).2 :=
    fun upholds => (upholds d h).mono fun _ => .inl
  cases op with
  | enter | leave | currentMethod | ownerType | currentParameter => exact (h.of_types rfl).mono fun _ => .inl
  | ensureNamespace => exact built (Draft.upholds_ensureNamespace refs _)
  | unknownNamespace => exact built (Draft.upholds_unknownNamespace refs)
  | unknownType => exact built (Draft.upholds_unknownType refs)
  | typeOfBinding i => exact built (refs.bound i)
  | typeOfRef t => exact built (Draft.clothed_typeOfRef ctx t)
  | typeOfExpr t =>
    refine built (f := Draft.typeOfExpr t) ?_
    unfold Draft.typeOfExpr
    split
    · exact refs.written _ trivial
    · exact Draft.upholds_unknownType refs
  | typeOfDecl decl => exact (Draft.clothed_typeOfDecl ctx decl agree modest h).mono fun _ => .inl
  | typeOfAnonymous a t => exact Draft.clothed_typeOfAnonymous ctx a t h
  | methodOfBinding => exact built (Draft.upholds_methodOfBinding refs _)
  | methodOfDecl => exact built (Draft.upholds_methodOfDecl refs fun _ _ _ _ => trivial)
  | initializerMethod => exact built (Draft.upholds_initializerMethod refs _)
  | unresolvedMethod => exact built (Draft.upholds_unresolvedMethod refs _)
  | parameterOfDecl => exact built (Draft.upholds_parameterOfDecl refs (fun _ _ => trivial) _)
  | attributeOfFragment => exact built (Draft.upholds_attributeOfFragment refs _ fun _ _ => trivial)
  | attributeOfBinding => exact built (Draft.upholds_attributeOfBinding refs _)
  | localVariable => exact built (Draft.upholds_localVariable refs _ fun _ _ => trivial)
  | inherit subclass superclass => exact (h.link subclass superclass).mono fun _ => .inl
  | inheritBinding subclass i =>
    exact built (f := Draft.inheritBinding ctx subclass i)
      (Draft.upholds_bind (refs.bound i) fun s _ h => h.link subclass s)
  | inheritRef subclass t => exact built (Draft.clothed_inheritRef ctx subclass t)
  | invoke => exact built (Draft.upholds_invoke refs _ _)
  | invokeExpr => exact built (Draft.upholds_invokeExpr refs _)
  | accessBinding => exact built (Draft.upholds_accessBinding refs _)
  | accessExpr => exact built (Draft.upholds_accessExpr refs _)
  | variableOfExpr => exact built (Draft.upholds_variableOfExpr refs _)
  | markWrite => exact (h.of_types rfl).mono fun _ => .inl

/-- The binding of the method that an operation asks for. -/
def boundMethod? (ctx : Context) : Operation → Option MethodBinding
  | .methodOfBinding i => ctx.bindings.methodAt? i
  | .methodOfDecl decl => decl.binding.bind ctx.bindings.methodAt?
  | .invoke binding _ => binding.bind ctx.bindings.methodAt?
  | .invokeExpr e => (Draft.calledBinding e).bind ctx.bindings.methodAt?
  | _ => none

theorem makesVisible_of_bound {ctx : Context} {op : Operation} {b : MethodBinding}
    (bound : op.boundMethod? ctx = some b) : MakesVisible (op.perform ctx) := by
  cases op with
  | methodOfBinding i => exact Draft.makesVisible_methodOfBinding ctx bound
  | methodOfDecl decl => exact Draft.makesVisible_methodOfDecl ctx bound
  | invoke binding signature => exact Draft.makesVisible_invoke ctx bound signature
  | invokeExpr e => exact Draft.makesVisible_invokeExpr ctx bound
  | _ => cases bound

/-- What an operation declares, and what it makes from a binding, has a visibility in a later draft. -/
structure Vests (ctx : Context) (last : Draft) (op : Operation) (d : Draft) : Prop where
  declaredType : ∀ decl, op = .typeOfDecl decl → VisibleType (Draft.typeOfDecl ctx decl d).1 last
  declaredMethod : ∀ decl, op = .methodOfDecl decl → VisibleMethod (Draft.methodOfDecl ctx decl d).1 last
  declaredField : ∀ fragment field, op = .attributeOfFragment fragment field →
    VisibleAttribute (Draft.attributeOfFragment ctx fragment field d).1 last
  boundType : ∀ i b, op = .typeOfBinding i → ctx.bindings.types[i]? = some b →
    (Draft.resolveContainer ctx.bindings b d).draft.registry.types.get? (typeKey ctx.bindings b) = none →
      VisibleType (Draft.typeOfBinding ctx i d).1 last
  boundMethod : ∀ b, op.boundMethod? ctx = some b →
    ∀ id, Present id (op.apply ctx d) → ¬ Present id d → VisibleMethod id last

theorem Vests.shows {ctx : Context} {op : Operation} {d e f : Draft} (h : Vests ctx e op d) (shows : Shows e f) :
    Vests ctx f op d where
  declaredType decl same := (h.declaredType decl same).shows shows
  declaredMethod decl same := (h.declaredMethod decl same).shows shows
  declaredField fragment field same := (h.declaredField fragment field same).shows shows
  boundType i b same listed unmet := (h.boundType i b same listed unmet).shows shows
  boundMethod b bound id there absent := (h.boundMethod b bound id there absent).shows shows

/-- The step lemma: what an operation declares or makes from a binding has a visibility at once. -/
theorem vests_apply (ctx : Context) (op : Operation) {d : Draft} (agree : d.registry.Matches d.repository)
    (modest : Modest d) : Vests ctx (op.apply ctx d) op d where
  declaredType := by
    rintro decl rfl
    exact Draft.visible_typeOfDecl ctx decl agree modest
  declaredMethod := by
    rintro decl rfl
    exact Draft.visible_methodOfDecl ctx agree modest decl
  declaredField := by
    rintro fragment field rfl
    exact Draft.visible_attributeOfFragment ctx agree modest fragment field
  boundType := by
    rintro i b rfl listed unmet
    exact (Draft.typeOfBinding_runs listed d).made_visible unmet
  boundMethod b bound id there absent := makesVisible_of_bound bound d id there absent

/-- The run lemma: no later operation hides what an earlier one has shown. -/
theorem vests_applyAll (ctx : Context) (history : List Operation) {d : Draft}
    (agree : d.registry.Matches d.repository) (modest : Modest d) :
    AtEvery ctx (Vests ctx (applyAll ctx history d)) history d := by
  induction history generalizing d with
  | nil => trivial
  | cons op rest ih =>
    refine ⟨(op.vests_apply ctx agree modest).shows (.history ctx rest _), ?_⟩
    exact ih (op.apply_agree ctx agree) (op.modest_apply ctx modest)

theorem clothed_applyAll (ctx : Context) (history : List Operation) {others : TypeId → Prop} {d : Draft}
    (agree : d.registry.Matches d.repository) (modest : Modest d) (h : Clothed others d) :
    Clothed (fun id => others id ∨ AtSome ctx (MakesAnonymous ctx id) history d) (applyAll ctx history d) := by
  induction history generalizing others d with
  | nil => exact h.mono fun _ => .inl
  | cons op rest ih =>
    have step := op.clothed_apply ctx agree modest h
    exact (ih (op.apply_agree ctx agree) (op.modest_apply ctx modest) step).mono fun _ => or_assoc.mp

end Operation

end Famix
