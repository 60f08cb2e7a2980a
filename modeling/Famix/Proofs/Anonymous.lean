import Famix.Proofs.Catalogue
import Famix.Proofs.Declaration

/-!
Anonymous classes never collide. Each is visited inside a type or a method, and where no name in the source or in the
table has a dollar sign, the number that it is given was not given before. So there are as many types named like
anonymous classes as there are anonymous classes.
-/
namespace Famix

open Java (Project CompilationUnit TypeDecl TypeRef AnonymousClass Member)

namespace Mark

def isAnonymous : Mark → Bool
  | .anonymous .. => true
  | _ => false

/-- The types that a mark refers to. -/
def typeRefs : Mark → List TypeRef
  | .type decl => decl.superclass.toList ++ decl.interfaces
  | .anonymous _ t => [t]
  | .method decl => decl.returnType.toList ++ decl.parameters.map (·.type)
  | .field _ decl => [decl.type]
  | .localVariable _ t => [t]
  | _ => []

/-- The type that a mark declares under a name. -/
def declaredType? : Mark → Option TypeDecl
  | .type decl => some decl
  | _ => none

/-- A type that is declared has a name, and no dollar sign is in its name or in a name that is written for a type. -/
structure Undollared (m : Mark) : Prop where
  declared : ∀ decl ∈ m.declaredType?, decl.name ≠ "" ∧ '$' ∉ decl.name.toList
  written : ∀ t ∈ m.typeRefs, t.Admitted fun name => '$' ∉ name.toList

instance (t : TypeRef) : Decidable (t.Admitted fun name => '$' ∉ name.toList) :=
  inferInstanceAs (Decidable (∀ name ∈ t.written.recoveredName, '$' ∉ name.toList))

instance (m : Mark) : Decidable m.Undollared :=
  decidable_of_iff ((∀ decl ∈ m.declaredType?, decl.name ≠ "" ∧ '$' ∉ decl.name.toList) ∧
    ∀ t ∈ m.typeRefs, t.Admitted fun name => '$' ∉ name.toList) ⟨fun h => ⟨h.1, h.2⟩, fun h => ⟨h.declared, h.written⟩⟩

/-! Where anonymous classes stand. -/

/-- Whether what is opened innermost by some marks is a type or a method. -/
def Surrounded (before : List Mark) : Prop :=
  ∃ q rest, unclosed before = q :: rest ∧ (q.mark.opens = some .type ∨ q.mark.opens = some .method)

theorem Surrounded.after {before body : List Mark} (h : Surrounded before) (nested : Nested body) :
    Surrounded (before ++ body) := by
  unfold Surrounded
  rw [nested.unclosed]
  exact h

theorem surrounded_concat {m : Mark} (opening : m.opens = some .type ∨ m.opens = some .method) (before : List Mark) :
    Surrounded (before ++ [m]) := by
  refine ⟨⟨before, m⟩, unclosed before, ?_, opening⟩
  have role : m.role = .opening := by
    rcases opening with type | method
    · exact role_of_opens type
    · exact role_of_opens method
  rw [unclosed_concat, Place.nest, role]

theorem forall_placesAfter_enclosed {P : Place → Prop} {before body : List Mark} {m : Mark} (first : P ⟨before, m⟩)
    (inner : ∀ p ∈ placesAfter (before ++ [m]) body, P p) (last : P ⟨before ++ [m] ++ body, .close⟩) :
    ∀ p ∈ placesAfter before (m :: (body ++ [.close])), P p := by
  intro p mem
  rw [placesAfter, placesAfter_append] at mem
  rcases List.mem_cons.mp mem with rfl | mem
  · exact first
  · rcases List.mem_append.mp mem with mem | mem
    · exact inner p mem
    · rw [List.mem_singleton.mp mem]
      exact last

theorem Laid.surrounded {site : Site} {marks : List Mark} (laid : Laid site marks) {before : List Mark}
    (outer : Surrounded before) : ∀ p ∈ placesAfter before marks, Surrounded p.before := by
  induction laid generalizing before with
  | nil => exact nofun
  | append first _ ihFirst ihSecond =>
    intro p mem
    rw [placesAfter_append] at mem
    rcases List.mem_append.mp mem with mem | mem
    · exact ihFirst outer p mem
    · exact ihSecond (outer.after first.nested) p mem
  | single m single =>
    intro p mem
    rw [List.mem_singleton.mp mem]
    exact outer
  | type m opening inner ih =>
    have within := surrounded_concat (.inl opening) before
    exact forall_placesAfter_enclosed outer (ih within) (within.after inner.nested)
  | method m opening inner ih =>
    have within := surrounded_concat (.inr opening) before
    exact forall_placesAfter_enclosed outer (ih within) (within.after inner.nested)

/-- Whether all anonymous classes that are read after some marks stand directly in a type or a method. -/
def Housed (before marks : List Mark) : Prop :=
  ∀ p ∈ placesAfter before marks, p.mark.isAnonymous = true → Surrounded p.before

theorem housed_append {before marks more : List Mark} :
    Housed before (marks ++ more) ↔ Housed before marks ∧ Housed (before ++ marks) more := by
  unfold Housed
  rw [placesAfter_append, List.forall_mem_append]

theorem housed_flatMap {α : Type} {read : α → List Mark} (housed : ∀ a before, Housed before (read a)) (as : List α)
    (before : List Mark) : Housed before (as.flatMap read) := by
  induction as generalizing before with
  | nil => exact nofun
  | cons a rest ih =>
    rw [List.flatMap_cons, housed_append]
    exact ⟨housed a before, ih _⟩

theorem housed_readType (decl : TypeDecl) (before : List Mark) : Housed before (readMember (.type decl)) := by
  obtain ⟨name, kind, binding, modifiers, superclass, interfaces, body⟩ := decl
  rw [readMember]
  refine forall_placesAfter_enclosed nofun (fun p mem _ => ?_) nofun
  exact (laid_readMembers body).surrounded (surrounded_concat (.inl rfl) before) p mem

theorem housed_readUnit (unit : CompilationUnit) (before : List Mark) : Housed before (readUnit unit) := by
  have types : ∀ before, Housed before (readTypes unit.types) := housed_flatMap housed_readType unit.types
  unfold readUnit
  cases unit.package with
  | none => exact types before
  | some package =>
    refine forall_placesAfter_enclosed (fun opening => ?_) (types _) fun last => ?_
    · cases opening
    · cases last

theorem housed_readUnits (units : List CompilationUnit) : Housed [] (readUnits units) :=
  housed_flatMap housed_readUnit units []

theorem mem_placesAfter {p : Place} {before marks : List Mark} (mem : p ∈ placesAfter before marks) :
    ∃ front rest, marks = front ++ p.mark :: rest ∧ p.before = before ++ front := by
  induction marks generalizing before with
  | nil => cases mem
  | cons m marks ih =>
    rcases List.mem_cons.mp mem with rfl | mem
    · exact ⟨[], marks, rfl, (List.append_nil _).symm⟩
    · obtain ⟨front, rest, split, reached⟩ := ih mem
      exact ⟨m :: front, rest, by rw [split, List.cons_append], by rw [reached, List.append_assoc]; rfl⟩

theorem mem_places {p : Place} {marks : List Mark} (mem : p ∈ places marks) :
    ∃ rest, marks = p.before ++ p.mark :: rest := by
  obtain ⟨front, rest, split, reached⟩ := mem_placesAfter mem
  exact ⟨rest, by rw [split, reached, List.nil_append]⟩

/-- What is open was opened before. -/
theorem mem_unclosed {p : Place} {marks : List Mark} (mem : p ∈ unclosed marks) :
    ∃ rest, marks = p.before ++ p.mark :: rest := by
  induction marks using List.reverseRecOn with
  | nil => cases mem
  | append_singleton marks m ih =>
    have earlier : p ∈ unclosed marks → ∃ rest, marks ++ [m] = p.before ++ p.mark :: rest := by
      intro mem
      obtain ⟨rest, rfl⟩ := ih mem
      exact ⟨rest ++ [m], by rw [List.append_assoc, List.cons_append]⟩
    rw [unclosed_concat, Place.nest] at mem
    split at mem
    · rcases List.mem_cons.mp mem with rfl | mem
      · exact ⟨[], rfl⟩
      · exact earlier mem
    · exact earlier (List.mem_of_mem_tail mem)
    · exact earlier mem

theorem later_actAll (ctx : Context) (marks : List Mark) (d : Draft) : Draft.Later d (actAll ctx marks d) := by
  rw [← applyAll_history]
  exact .history ctx _ d

end Mark

theorem Place.opened_opens (ctx : Context) (p : Place) : (p.opened ctx).map (·.element.kind) = p.mark.opens := by
  obtain ⟨before, mark⟩ := p
  cases mark <;> rfl

/-- Directly in a type or a method there is a type to which things belong. -/
theorem Mark.Surrounded.owner {before : List Mark} (h : Surrounded before) (ctx : Context) :
    ∃ owner, (actAll ctx before {}).ownerType = some owner := by
  obtain ⟨q, rest, unclosed, opens⟩ := h
  have frames := frames_unclosed ctx before
  have sited := (sound_actAll ctx before).sited
  rw [unclosed, List.map_cons] at frames
  obtain ⟨c, others, shape, opened, -⟩ := List.map_eq_cons_iff.mp frames
  have current : (actAll ctx before {}).scope.current = some c := by rw [Scope.current, shape]; rfl
  rw [← Place.opened_opens ctx, ← opened] at opens
  unfold Draft.ownerType
  rw [current]
  cases c with
  | ns id => rcases opens with opens | opens <;> cases opens
  | type id => exact ⟨id, rfl⟩
  | method id =>
    obtain ⟨m, known⟩ := (sited.current_holds current).method
    exact ⟨m.parentType, by simp only [known, Option.map_some]⟩

namespace Draft

variable {ctx : Context} {base d : Draft} {count : Nat}

/-! What declarations and anonymous classes make of a draft. -/

theorem anonymousContainer_of_owner {owner : TypeId} (owned : d.ownerType = some owner) :
    anonymousContainer d = (.type owner, d) := by
  have container : ∀ c, d.scope.current = some c → containerOrUnknown d = (c, d) := by
    intro c current
    unfold containerOrUnknown
    rw [get_bind_apply, current]
    rfl
  unfold ownerType at owned
  split at owned
  · next id current =>
    cases owned
    simp only [anonymousContainer, bind, StateT.bind, container _ current]
    rfl
  · next id current =>
    obtain ⟨m, known, rfl⟩ := Option.map_eq_some_iff.mp owned
    simp only [anonymousContainer, bind, StateT.bind, container _ current, get, getThe, MonadStateOf.get, StateT.get,
      pure, known]
    rfl
  · cases owned

/-- The kind of type that an anonymous class is. -/
def anonymousKind (ctx : Context) (a : AnonymousClass) : TypeKind :=
  match ctx.bindings.resolveType a.binding () with
  | .resolved _ b => kindOf b
  | .unresolved _ => .classType false

/-- An anonymous class as it is added to the type that it is visited in. -/
def addAnonymous (ctx : Context) (a : AnonymousClass) (owner : TypeId) (d : Draft)
    (fresh : d.registry.types.get? (d.repository.childName (.type owner)
      (anonymousName (d.repository.typesIn (.type owner)).length)) = none) : Draft :=
  d.addType _ (anonymousName (d.repository.typesIn (.type owner)).length) (.type owner) (anonymousKind ctx a) fresh

/-- In a catalogued draft an anonymous class is always new. -/
theorem typeOfAnonymous_eq (catalogued : Catalogued d) {owner : TypeId} (owned : d.ownerType = some owner)
    (there : Present owner d) (a : AnonymousClass) (t : TypeRef) : typeOfAnonymous ctx a t d =
      (⟨d.repository.types.size⟩, (inheritRefs ctx ⟨d.repository.types.size⟩ [t]
        ((Change.typeOpened ⟨d.repository.types.size⟩).apply
          (d.addAnonymous ctx a owner (catalogued.fresh there)))).2) := by
  have fresh : d.registry.types.get? (d.repository.childName (.type owner)
      ("$" ++ toString (d.repository.typesIn (.type owner)).length)) = none := catalogued.fresh there
  simp only [typeOfAnonymous, bind, StateT.bind, anonymousContainer_of_owner owned, get, getThe, MonadStateOf.get,
    StateT.get, pure]
  rw [internType_of_none fresh]
  rfl

/-- A type of its owner that is numbered as an anonymous class, with a single supertype. -/
structure AnonymousType (r : Repository) (owner : TypeId) (n : Nat) (instantiated id : TypeId) : Prop where
  placed : ∃ t, r.type? id = some t ∧ t.container = .type owner ∧ t.name = anonymousName n
  supertypes : r.supertypesOf id = [instantiated]

theorem AnonymousType.keep {r s : Repository} {owner instantiated id : TypeId} {n : Nat}
    (h : AnonymousType r owner n instantiated id) (keeps : r.Keeps s)
    (supertypes : s.supertypesOf id = r.supertypesOf id) : AnonymousType s owner n instantiated id := by
  obtain ⟨t, known, container, name⟩ := h.placed
  obtain ⟨u, kept, sameName, sameContainer⟩ := keeps.types id.index t known
  exact ⟨⟨u, kept, sameContainer.trans container, sameName.trans name⟩, supertypes.trans h.supertypes⟩

theorem typeOfAnonymous_new (ctx : Context) (sound : Sound .links d) (catalogued : Catalogued d) {owner : TypeId}
    (owned : d.ownerType = some owner) (a : AnonymousClass) (t : TypeRef) :
    let made := typeOfAnonymous ctx a t d
    made.1 = ⟨d.repository.types.size⟩ ∧ AnonymousType made.2.repository owner
      (d.repository.typesIn (.type owner)).length (typeOfRef ctx t made.2).1 made.1 := by
  dsimp only
  have there := sound.sited.ownerType_holds owned
  rw [typeOfAnonymous_eq catalogued owned there]
  refine ⟨rfl, ?_⟩
  let opened := (Change.typeOpened ⟨d.repository.types.size⟩).apply
    (d.addAnonymous ctx a owner (catalogued.fresh there))
  have size : opened.repository.types.size = d.repository.types.size + 1 :=
    Array.size_modify.trans (Array.size_push _)
  have new : Present (⟨d.repository.types.size⟩ : TypeId) opened :=
    Nat.lt_of_lt_of_eq (Nat.lt_succ_self _) size.symm
  have known : opened.repository.type? ⟨d.repository.types.size⟩ = some
      { name := anonymousName (d.repository.typesIn (.type owner)).length, isStub := false,
        modifiers := (NamedEntity.stub "").modifiers, id := ⟨d.repository.types.size⟩, container := .type owner,
        kind := anonymousKind ctx a } := by
    refine (Array.getElem?_modify ..).trans ((if_pos rfl).trans ?_)
    rw [addAnonymous, addType, Repository.insertType, Array.getElem?_push_size]
    rfl
  have unlinked : opened.repository.supertypesOf ⟨d.repository.types.size⟩ = [] :=
    sound.linked trivial _ (Nat.le_refl _)
  obtain ⟨type, supertypes⟩ := inheritRefs_effect ctx [t] new
  refine ⟨⟨_, type.trans known, rfl, rfl⟩, ?_⟩
  have scope := (builds_inheritRefs ctx ⟨d.repository.types.size⟩ [t]).scope opened
  rw [supertypes _ (.refl _) (congrArg Scope.current scope), unlinked]
  rfl

section Steps

variable (refers : ∀ base count, Referable ctx (fun name => '$' ∉ name.toList) (Orderly base count))
include refers

theorem orderly_inheritRefs {id : TypeId} (new : base.repository.types.size ≤ id.index) {ts : List TypeRef}
    (admitted : ∀ t ∈ ts, t.Admitted fun name => '$' ∉ name.toList) (h : Orderly base count d) :
    Orderly base count (inheritRefs ctx id ts d).2 := by
  induction ts generalizing d with
  | nil => exact h
  | cons t ts ih =>
    obtain ⟨own, others⟩ := List.forall_mem_cons.mp admitted
    have referred := upholds_typeOfRef (refers base count) own d h
    exact ih others (referred.link new (typeOfRef ctx t d).1)

theorem orderly_typeOfAnonymous (sound : Sound .links d) {owner : TypeId} (owned : d.ownerType = some owner)
    (a : AnonymousClass) {t : TypeRef} (admitted : t.Admitted fun name => '$' ∉ name.toList)
    (h : Orderly base count d) : Orderly base (count + 1) (typeOfAnonymous ctx a t d).2 := by
  have there := sound.sited.ownerType_holds owned
  rw [typeOfAnonymous_eq h.catalogued owned there]
  have nonempty : d.repository.childName (.type owner)
      (anonymousName (d.repository.typesIn (.type owner)).length) ≠ "" := by
    rw [Repository.childName_type rfl (h.catalogued.nonempty owner there)]
    exact append_dot_ne _ _
  have added : Orderly base (count + 1) (d.addAnonymous ctx a owner (h.catalogued.fresh there)) := by
    have added := h.add (anonymousKind ctx a) (h.catalogued.fresh there) (h.catalogued.anchored owner there) rfl
      nonempty fun _ => ⟨owner, rfl, rfl⟩
    rwa [isAnonymousName_anonymousName] at added
  have opened := added.mild (c := .typeOpened ⟨d.repository.types.size⟩) trivial
  exact orderly_inheritRefs refers (h.keeps.counts .type) (List.forall_mem_singleton.mpr admitted) opened

theorem orderly_typeOfUnboundDecl (sound : Sound .links d) {decl : TypeDecl} (nonempty : decl.name ≠ "")
    (plain : '$' ∉ decl.name.toList)
    (admitted : ∀ t ∈ decl.superclass.toList ++ decl.interfaces, t.Admitted fun name => '$' ∉ name.toList)
    (h : Orderly base count d) : Orderly base count (typeOfUnboundDecl ctx decl d).2 := by
  have outer := achieves_containerOrUnknown sound
  have rooted := (outer.walk.sound sound).sited.rooted
  have h := upholds_containerOrUnknown (refers base count) d h
  have anchored : (containerOrUnknown d).2.repository.Anchored (containerOrUnknown d).1 := rooted _ outer.post
  rw [typeOfUnboundDecl_eq]
  generalize containerOrUnknown d = start at h anchored ⊢
  obtain ⟨c, e⟩ := start
  have typed := h.type (declaredKind decl.kind) anchored rfl (joinName_ne nonempty _) plain
  dsimp only at h typed ⊢
  cases looked : e.registry.types.get? (e.repository.childName c decl.name) with
  | some id =>
    rw [declaredUnder_of_some ctx decl looked]
    exact h
  | none =>
    rw [internType_of_none looked] at typed
    rw [declaredUnder_of_none ctx decl looked]
    exact orderly_inheritRefs refers (h.keeps.counts .type) admitted typed

theorem orderly_typeOfDecl (sound : Sound .links d) {decl : TypeDecl} (plain : (Mark.type decl).Undollared)
    (h : Orderly base count d) : Orderly base count (typeOfDecl ctx decl d).2 := by
  have finish : ∀ id : TypeId, Upholds (Orderly base count) (do editType id (·.declare decl.modifiers); return id) :=
    fun id => upholds_bind (upholds_change (refers base count) (fun _ => .typeDeclared id decl.modifiers)
      (fun _ => rfl) fun _ => trivial) fun _ => upholds_pure id
  obtain ⟨nonempty, undollared⟩ := plain.declared decl rfl
  unfold typeOfDecl
  cases resolved : ctx.bindings.resolveType decl.binding decl with
  | resolved i b => exact finish _ _ ((refers base count).bound i d h)
  | unresolved hint =>
    obtain rfl : hint = decl := Java.BindingTable.resolveIn_hint resolved
    exact finish _ _ (orderly_typeOfUnboundDecl refers sound nonempty undollared plain.written h)

/-- One mark makes an anonymous class if it is one, and else none. -/
theorem orderly_act {m : Mark} (plain : m.Undollared) (sound : Sound .links d)
    (housed : m.isAnonymous = true → ∃ owner, d.ownerType = some owner) (h : Orderly base count d) :
    Orderly base (count + m.isAnonymous.toNat) (m.act ctx d) := by
  have ref := refers base count
  refine Orderly.rescope (d := (m.prepare ctx d).2) ?_ _
  cases m with
  | package name => exact upholds_ensureNamespace ref name d h
  | type decl => exact orderly_typeOfDecl refers sound plain h
  | anonymous a t =>
    obtain ⟨owner, owned⟩ := housed rfl
    exact orderly_typeOfAnonymous refers sound owned a (plain.written t List.mem_cons_self) h
  | method decl =>
    refine upholds_methodWithParameters ref (fun t mem => plain.written t ?_) (fun q mem => plain.written _ ?_) d h
    · exact List.mem_append_left _ (Option.mem_toList.mpr mem)
    · exact List.mem_append_right _ (List.mem_map_of_mem mem)
  | initializer decl => exact upholds_initializerMethod ref decl d h
  | close => exact h
  | field fragment decl =>
    exact upholds_attributeOfFragment ref fragment (plain.written decl.type List.mem_cons_self) d h
  | localVariable fragment t => exact upholds_localVariable ref fragment (plain.written t List.mem_cons_self) d h
  | call e => exact upholds_invokeExpr ref e d h
  | mention identifier binding assigned => exact upholds_mention ref (.name identifier binding) assigned d h

theorem orderly_actAll {before marks : List Mark} (plain : ∀ m ∈ marks, m.Undollared)
    (housed : Mark.Housed before marks) (h : Orderly base count (Mark.actAll ctx before {})) :
    Orderly base (count + marks.countP Mark.isAnonymous) (Mark.actAll ctx (before ++ marks) {}) := by
  induction marks generalizing before count with
  | nil => simpa using h
  | cons m rest ih =>
    obtain ⟨own, others⟩ := List.forall_mem_cons.mp plain
    obtain ⟨here, later⟩ := List.forall_mem_cons.mp housed
    have acted := orderly_act refers own (Mark.sound_actAll ctx before) (fun anonymous => (here anonymous).owner ctx) h
    rw [← List.singleton_append, ← List.append_assoc, List.countP_append, ← Nat.add_assoc]
    refine ih others later ?_
    rw [Mark.actAll_append]
    cases m <;> exact acted

/-- An anonymous class that comes after some marks is new, and has the owner and the number it should have. -/
theorem anonymous_made {before : List Mark} (plain : ∀ m ∈ before, m.Undollared) (housed : Mark.Housed [] before)
    (inside : Mark.Surrounded before) (a : AnonymousClass) (t : TypeRef) :
    let d := Mark.actAll ctx before {}
    let made := typeOfAnonymous ctx a t d
    ∃ owner, d.ownerType = some owner ∧ ¬ Present made.1 d ∧ AnonymousType made.2.repository owner
      (d.repository.typesIn (.type owner)).length (typeOfRef ctx t made.2).1 made.1 := by
  intro d made
  obtain ⟨owner, owned⟩ := inside.owner ctx
  have orderly : Orderly {} _ d := orderly_actAll refers plain housed (.refl .empty)
  obtain ⟨new, anonymous⟩ := typeOfAnonymous_new ctx (Mark.sound_actAll ctx before) orderly.catalogued owned a t
  refine ⟨owner, owned, fun there => ?_, anonymous⟩
  rw [new] at there
  exact Nat.lt_irrefl _ there

/-- What comes after an anonymous class leaves its name, its owner and its supertype as they are. -/
theorem anonymous_stays {before marks : List Mark} (plain : ∀ m ∈ marks, m.Undollared)
    (housed : Mark.Housed before marks) (catalogued : Catalogued (Mark.actAll ctx before {}))
    {owner instantiated id : TypeId} {n : Nat}
    (h : AnonymousType (Mark.actAll ctx before {}).repository owner n instantiated id) :
    AnonymousType (Mark.actAll ctx (before ++ marks) {}).repository owner n instantiated id := by
  have after := orderly_actAll refers plain housed (.refl catalogued)
  obtain ⟨t, known, -⟩ := h.placed
  exact h.keep after.keeps (after.supertypes id (Repository.holds_type known))

end Steps

end Draft

/-- Anonymous classes never collide. If the names in the table are consistent, declared types have names, and neither
these names nor those written for types nor those in the table have a dollar sign, then each anonymous class makes a
type that was not there: in the type that is open, or in that of the method that is open, numbered by how many types
this one held, and with the type that is instantiated as its only supertype. So it is in the model. There are as many
types with such names as there are anonymous classes, and no two types of a container have the same name. -/
theorem anonymous_types_distinct (project : Project) (keying : AttributeKeying)
    (consistent : NamesConsistent project.bindings) (table : ∀ b ∈ project.bindings.types, b.Undollared)
    (source : ∀ m ∈ readUnits project.units, m.Undollared) :
    let ctx : Context := { bindings := project.bindings, keying }
    let model := buildModel project keying
    (∀ p ∈ Mark.places (readUnits project.units), ∀ a t, p.mark = .anonymous a t →
      let before := p.draft ctx
      let made := Draft.typeOfAnonymous ctx a t before
      ∃ owner, before.ownerType = some owner ∧ ¬ Draft.Present made.1 before ∧
        let n := (before.repository.typesIn (.type owner)).length
        let instantiated := (Draft.typeOfRef ctx t made.2).1
        Draft.AnonymousType made.2.repository owner n instantiated made.1 ∧
          Draft.AnonymousType model owner n instantiated made.1) ∧
      model.anonymousCount = (readUnits project.units).countP Mark.isAnonymous ∧
      ∀ i j t u, model.type? i = some t → model.type? j = some u → t.container = u.container → t.name = u.name →
        i = j := by
  intro ctx model
  have refers : ∀ base count, Draft.Referable ctx (fun name => '$' ∉ name.toList) (Draft.Orderly base count) :=
    Draft.referable_orderly consistent table
  have start : Draft.Orderly {} 0 {} := .refl .empty
  have housed := Mark.housed_readUnits project.units
  have whole : Draft.Orderly {} _ (Mark.actAll ctx (readUnits project.units) {}) :=
    Draft.orderly_actAll refers source housed start
  have reads : model = (Mark.actAll ctx (readUnits project.units) {}).repository := buildModel_reads ..
  refine ⟨?_, ?_, fun i j t u here there => ?_⟩
  · rintro ⟨before, mark⟩ mem a t rfl
    obtain ⟨front, rest, split, reached⟩ := Mark.mem_placesAfter mem
    obtain rfl : before = front := reached
    rw [split, ← List.singleton_append, ← List.append_assoc] at source housed reads
    obtain ⟨plain, plainAfter⟩ := List.forall_mem_append.mp source
    obtain ⟨plainBefore, -⟩ := List.forall_mem_append.mp plain
    obtain ⟨housed, housedAfter⟩ := Mark.housed_append.mp housed
    obtain ⟨housedBefore, housedHere⟩ := Mark.housed_append.mp housed
    have inside : Mark.Surrounded before := housedHere _ List.mem_cons_self rfl
    obtain ⟨owner, owned, new, made⟩ := Draft.anonymous_made refers plainBefore housedBefore inside a t
    refine ⟨owner, owned, new, made, ?_⟩
    have acted := Draft.orderly_actAll refers plain housed start
    have same : (Mark.actAll ctx (before ++ [.anonymous a t]) {}).repository =
        (Draft.typeOfAnonymous ctx a t (Mark.actAll ctx before {})).2.repository := by
      rw [Mark.actAll_append]
      rfl
    rw [← same] at made
    rw [reads]
    exact Draft.anonymous_stays refers plainAfter housedAfter acted.catalogued made
  · rw [reads, whole.anonymous, Nat.zero_add]
  · rw [reads] at here there
    exact whole.catalogued.eq_of_place here there

/-- A reference to a class, which may be bound. -/
def refB (binding : Option Java.TypeIndex) : TypeRef := { written := .simple "B", binding }

def createB (binding : Option Java.TypeIndex) : Java.Expr := .creation (refB binding) [] none (some ⟨none, []⟩)

/-- A class with two anonymous classes. One is of a field and extends what is known by name alone, the other is in a
method and extends a class of the table. -/
def twiceDecl : TypeDecl where
  name := "A"
  kind := .classType
  binding := none
  modifiers := []
  superclass := none
  interfaces := []
  body := [.field ⟨refB none, [], [⟨"f", none, some (createB none)⟩]⟩,
    .method ⟨"m", none, false, none, [], [], [.expression (createB (some 1))]⟩]

def twiceProject : Project where
  bindings := Operation.sampleTable
  units := [{ types := [twiceDecl] }]

/-- The place of the second anonymous class. -/
def twicePlace : Place := ⟨(readUnits twiceProject.units).take 7, .anonymous ⟨none, []⟩ (refB (some 1))⟩

theorem anonymous_types_distinct_twice :
    let before := twicePlace.draft { bindings := twiceProject.bindings, keying := .legacy }
    NamesConsistent twiceProject.bindings ∧ (∀ b ∈ twiceProject.bindings.types, b.Undollared) ∧
      (∀ m ∈ readUnits twiceProject.units, m.Undollared) ∧
      twicePlace ∈ Mark.places (readUnits twiceProject.units) ∧
      (∃ instantiated id, ¬ Draft.Present id before ∧
        Draft.AnonymousType (buildModel twiceProject .legacy) ⟨0⟩ 1 instantiated id) ∧
      (buildModel twiceProject .legacy).anonymousCount = 2 := by
  intro before
  have table : ∀ b ∈ twiceProject.bindings.types, b.Undollared := by decide +kernel
  have source : ∀ m ∈ readUnits twiceProject.units, m.Undollared := by decide +kernel
  have visited : twicePlace ∈ Mark.places (readUnits twiceProject.units) := List.mem_of_getElem? (i := 7) rfl
  obtain ⟨each, count, -⟩ :=
    anonymous_types_distinct twiceProject .legacy Operation.sampleTable_consistent table source
  obtain ⟨owner, owned, new, -, model⟩ := each twicePlace visited _ _ rfl
  have inside : before.ownerType = some ⟨0⟩ := by decide +kernel
  have second : (before.repository.typesIn (.type ⟨0⟩)).length = 1 := by decide +kernel
  obtain rfl : owner = ⟨0⟩ := Option.some.inj (owned.symm.trans inside)
  have model : Draft.AnonymousType _ ⟨0⟩ (before.repository.typesIn (.type ⟨0⟩)).length _ _ := model
  rw [second] at model
  exact ⟨Operation.sampleTable_consistent, table, source, visited, ⟨_, _, new, model⟩, count.trans (by decide +kernel)⟩

end Famix
