import Famix.Proofs.History
import Famix.Proofs.Nesting

/-!
Asking again. What was once found under a name is found again under that name, whatever was done in between, as long
as the same container is open; and a declaration that is seen a second time changes nothing.
-/
namespace Famix

/-- Declared modifiers say who may use what they are given to. -/
theorem ModifierSet.exists_visibility (modifiers : List Modifier) :
    ∃ m ∈ ModifierSet.declared modifiers, m.isVisibility = true := by
  unfold ModifierSet.declared
  split
  · next some =>
    obtain ⟨m, listed, visible⟩ := List.any_eq_true.mp some
    exact ⟨m, ModifierSet.mem_ofList.mpr listed, visible⟩
  · exact ⟨.packageAccess, ModifierSet.mem_ofList.mpr List.mem_cons_self, rfl⟩

theorem ModifierSet.isEmpty_declared (modifiers : List Modifier) :
    (ModifierSet.declared modifiers).isEmpty = false := by
  obtain ⟨m, listed, -⟩ := ModifierSet.exists_visibility modifiers
  exact List.isEmpty_eq_false_iff.mpr (List.ne_nil_of_mem listed)

namespace NamedEntity

/-- An entity as a declaration leaves it: with modifiers, and a stub or not. -/
structure Seen (stub : Bool) (e : NamedEntity) : Prop where
  stub : e.isStub = stub
  modifiers : e.modifiers.isEmpty = false

variable {e : NamedEntity} {stub : Bool}

theorem isEmpty_enrich (e : NamedEntity) (modifiers : List Modifier) :
    (e.enrich modifiers).modifiers.isEmpty = false := by
  unfold enrich
  split
  · exact ModifierSet.isEmpty_declared modifiers
  · next some => simpa using some

theorem Seen.enrich_eq (h : e.Seen stub) (modifiers : List Modifier) : e.enrich modifiers = e := by
  simp [enrich, h.modifiers]

theorem Seen.declare_eq (h : e.Seen false) (modifiers : List Modifier) : e.declare modifiers = e := by
  rw [declare, h.enrich_eq, ← h.stub]

theorem seen_declare (e : NamedEntity) (modifiers : List Modifier) : (e.declare modifiers).Seen false :=
  ⟨rfl, isEmpty_enrich e modifiers⟩

end NamedEntity

namespace Draft

/-- What is found in `d` by a name is found in `e`, with the same name, and what is remembered or declared stays so. -/
structure Later (d e : Draft) : Prop where
  registry : d.registry.Extends e.registry
  unknowns : d.unknowns.Extends e.unknowns
  keeps : d.repository.Keeps e.repository
  types : Grown (fun _ a b => a.toNamedEntity.Seen false → b.toNamedEntity.Seen false)
    d.repository.types e.repository.types
  methods : Grown (fun _ a b => a.toNamedEntity.Seen false → b.toNamedEntity.Seen false)
    d.repository.methods e.repository.methods
  attributes : Grown (fun _ a b => a.toNamedEntity.Seen true → b.toNamedEntity.Seen true)
    d.repository.attributes e.repository.attributes

namespace Later

variable {d e f : Draft}

theorem refl (d : Draft) : Later d d :=
  ⟨.refl _, .refl _, .refl _, .refl (fun _ _ => id) _, .refl (fun _ _ => id) _, .refl (fun _ _ => id) _⟩

theorem trans (h : Later d e) (k : Later e f) : Later d f where
  registry := h.registry.trans k.registry
  unknowns := h.unknowns.trans k.unknowns
  keeps := h.keeps.trans k.keeps
  types := h.types.trans (fun _ _ _ _ first second => second ∘ first) k.types
  methods := h.methods.trans (fun _ _ _ _ first second => second ∘ first) k.methods
  attributes := h.attributes.trans (fun _ _ _ _ first second => second ∘ first) k.attributes

/-- No change takes back a declaration, whatever it is made to. -/
theorem change (c : Change) (d : Draft) : Later d (c.apply d) := by
  have registry := c.registry_extends d
  have keeps := c.keeps d
  have same := refl d
  have result := c.result d
  generalize c.apply d = e at registry keeps result ⊢
  cases result with
  | known => exact same
  | space | parameter => exact { same with registry, keeps }
  | type fresh => exact { same with registry, keeps, types := same.types.push _ }
  | method fresh => exact { same with registry, keeps, methods := same.methods.push _ }
  | field fresh => exact { same with registry, keeps, attributes := same.attributes.push _ }
  | direct c direct =>
    cases c with
    | space | type | method | field | parameter => cases direct
    | initializer => exact { same with registry, keeps, methods := same.methods.push _ }
    | localVariable | inheritance | invocation | access | written => exact { same with registry, keeps }
    | remember u => exact { same with registry, keeps, unknowns := d.extends_remembering u }
    | typeModifiers id modifiers =>
      refine { same with registry, keeps, types := same.types.modify _ _ fun x y _ seen first => ?_ }
      exact ⟨(seen first).stub, ModifierSet.isEmpty_declared modifiers⟩
    | typeKind id kind =>
      exact { same with registry, keeps, types := same.types.modify _ _ fun x y _ seen first => seen first }
    | typeOpened id =>
      refine { same with registry, keeps, types := same.types.modify _ _ fun x y _ seen first => ?_ }
      exact ⟨rfl, (seen first).modifiers⟩
    | typeDeclared id modifiers =>
      refine { same with registry, keeps, types := same.types.modify _ _ fun x y _ _ _ => ?_ }
      exact NamedEntity.seen_declare _ modifiers
    | methodBound id modifiers declared =>
      refine { same with registry, keeps, methods := same.methods.modify _ _ fun x y _ seen first => ?_ }
      exact ⟨(seen first).stub, ModifierSet.isEmpty_declared modifiers⟩
    | methodTyped id declared =>
      exact { same with registry, keeps, methods := same.methods.modify _ _ fun x y _ seen first => seen first }
    | methodDeclared id modifiers =>
      refine { same with registry, keeps, methods := same.methods.modify _ _ fun x y _ _ _ => ?_ }
      exact NamedEntity.seen_declare _ modifiers
    | attributeDeclared id modifiers =>
      refine { same with registry, keeps, attributes := same.attributes.modify _ _ fun x y _ _ _ => ?_ }
      exact ⟨rfl, NamedEntity.isEmpty_enrich _ modifiers⟩

theorem path {allowed : Change → Prop} (h : Path allowed d e) : Later d e :=
  h.invariant (refl d) fun c e _ later => later.trans (change c e)

theorem history (ctx : Context) (history : List Operation) (d : Draft) : Later d (Operation.applyAll ctx history d) :=
  Operation.applyAll_invariant (P := Later d) ctx (fun c e later => later.trans (change c e))
    (fun _ _ later => { later with registry := later.registry }) history d (refl d)

end Later

/-- Once the step is made in `d`, making it again gives the same and changes nothing, now and at any later time when
the same container is open. -/
structure Lasts (f : Drafting α) (d : Draft) : Prop where
  later : Later d (f d).2
  scope : (f d).2.scope = d.scope
  again : ∀ e, Later (f d).2 e → e.scope.current = d.scope.current → f e = ((f d).1, e)

namespace Lasts

variable {d : Draft}

theorem pure (a : α) : Lasts (pure a) d := ⟨.refl d, rfl, fun _ _ _ => rfl⟩

theorem bind {x : Drafting α} {f : α → Drafting β} (first : Lasts x d) (rest : Lasts (f (x d).1) (x d).2) :
    Lasts (x >>= f) d where
  later := first.later.trans rest.later
  scope := rest.scope.trans first.scope
  again e later top := by
    have before : x e = ((x d).1, e) := first.again e (rest.later.trans later) top
    change f (x e).1 (x e).2 = _
    rw [before]
    exact rest.again e later (top.trans (congrArg Scope.current first.scope).symm)

/-- A step that goes by something that stays as it is. -/
theorem get {f : Draft → Drafting β} (stays : ∀ e, Later d e → e.scope.current = d.scope.current → f e = f d)
    (rest : Lasts (f d) d) : Lasts (get >>= f) d where
  later := rest.later
  scope := rest.scope
  again e later top := by
    change f e e = _
    rw [stays e (rest.later.trans later) top]
    exact rest.again e later top

/-- A step that looks for a key first. It lasts if the key stays the same, and is registered in the end. -/
theorem keyed {f : Drafting (ElementId kind)} (path : Path (fun _ => True) d (f d).2)
    (table : Registry → Interner kind) (extend : ∀ {r s : Registry}, r.Extends s → (table r).Extends (table s))
    (key : Draft → String) (stays : ∀ e, Later d e → key e = key d)
    (known : ∀ e id, (table e.registry).get? (key e) = some id → f e = (id, e))
    (registers : (table d.registry).get? (key d) = none → (table (f d).2.registry).get? (key d) = some (f d).1) :
    Lasts f d := by
  refine ⟨.path path, path.scope, fun e later _ => known e _ ?_⟩
  have found : (table (f d).2.registry).get? (key d) = some (f d).1 := by
    cases before : (table d.registry).get? (key d) with
    | none => exact registers before
    | some id =>
      rw [known d id before]
      exact before
  rw [stays e ((Later.path path).trans later)]
  exact extend later.registry _ _ found

/-- A step that interns a key, and then completes what is new. -/
theorem interned {intern : Drafting (Ensured kind)} {f : Ensured kind → Drafting (ElementId kind)} {key : String}
    (path : Path (fun _ => True) d (intern d).2) (table : Registry → Interner kind)
    (extend : ∀ {r s : Registry}, r.Extends s → (table r).Extends (table s))
    (known : ∀ e id, (table e.registry).get? key = some id → intern e = (.existing id, e))
    (registers : (table (intern d).2.registry).get? key = some (intern d).1.id)
    (existing : ∀ id, f (.existing id) = Pure.pure id)
    (created : ∀ id e, (f (.created id) e).1 = id ∧ Path (fun _ => True) e (f (.created id) e).2) :
    Lasts (intern >>= f) d := by
  have completes : ∀ ensured e, (f ensured e).1 = ensured.id ∧ Path (fun _ => True) e (f ensured e).2 := by
    intro ensured e
    cases ensured with
    | existing id =>
      rw [existing]
      exact ⟨rfl, .refl⟩
    | created id => exact created id e
  obtain ⟨same, completed⟩ := completes (intern d).1 (intern d).2
  refine .keyed (path.trans completed) table extend (fun _ => key) (fun _ _ => rfl) (fun e id found => ?_) fun _ => ?_
  · change f (intern e).1 (intern e).2 = _
    rw [known e id found, existing]
    rfl
  · change _ = some (f (intern d).1 (intern d).2).1
    rw [same]
    exact extend completed.registry_extends _ _ registers

end Lasts

/-! Types. -/

section Types

variable {d : Draft}

theorem lasts_ensureNamespace (name : String) : Lasts (ensureNamespace name) d :=
  .keyed ((builds_ensureNamespace name).any.path d) Registry.namespaces (·.namespaces) (fun _ => name)
    (fun _ _ => rfl) (fun _ _ => ensureNamespace_of_some) fun _ => ensureNamespace_registers name d

theorem lasts_internType {key name : String} {c : Container} {kind : TypeKind} {f : Ensured .type → Drafting TypeId}
    (existing : ∀ id, f (.existing id) = pure id)
    (created : ∀ id e, (f (.created id) e).1 = id ∧ Path (fun _ => True) e (f (.created id) e).2) :
    Lasts (internType key name c kind >>= f) d :=
  .interned ((builds_internType key name c kind).any.path d) Registry.types (·.types)
    (fun _ _ => internType_of_some) (internType_registers key name c kind d) existing created

theorem lasts_unknownNamespace : Lasts unknownNamespace d := by
  have path := builds_unknownNamespace.any.path d
  refine ⟨.path path, path.scope, fun e later _ => ?_⟩
  exact unknownNamespace_of_remembered (later.unknowns.space _ (unknownNamespace_remembers d))

theorem lasts_unknownTypeNamed (name : String) : Lasts (unknownTypeNamed name) d :=
  lasts_unknownNamespace.bind (lasts_internType (fun _ => rfl) fun _ _ => ⟨rfl, .refl⟩)

theorem lasts_unknownType : Lasts unknownType d := by
  have path := builds_unknownType.any.path d
  refine ⟨.path path, path.scope, fun e later _ => ?_⟩
  exact unknownType_of_remembered (later.unknowns.type _ (unknownType_remembers d))

theorem lasts_typeOfExpr (t : Java.TypeExpr) : Lasts (typeOfExpr t) d := by
  unfold typeOfExpr
  split
  · exact lasts_unknownTypeNamed _
  · exact lasts_unknownType

/-! What a run of resolution says of the type at a place of the table. -/

theorem typeOfBinding_of_run {ctx : Context} {i : Java.TypeIndex} {e : Draft} {id : TypeId}
    (run : Resolves ctx.bindings (.index i) d (.type id) e) : typeOfBinding ctx i d = (id, e) := by
  obtain ⟨found, same⟩ := (resolveIndex_runs ctx.bindings i d).deterministic run
  exact Prod.ext (Found.type.inj found) same

theorem typeOfBinding_beyond {ctx : Context} {i : Java.TypeIndex} (dangling : ctx.bindings.types[i]? = none) :
    typeOfBinding ctx i = unknownType := funext fun _ => typeOfBinding_of_run (.beyond dangling)

theorem typeOfBinding_runs {ctx : Context} {i : Java.TypeIndex} {b : Java.TypeBinding}
    (listed : ctx.bindings.types[i]? = some b) (d : Draft) :
    Resolves ctx.bindings (.binding b) d (.type (typeOfBinding ctx i d).1) (typeOfBinding ctx i d).2 := by
  obtain ⟨inside, rfl⟩ := List.getElem?_eq_some_iff.mp listed
  have own := resolveBinding_runs ctx.bindings _ (List.getElem_mem inside) d
  rw [typeOfBinding_of_run (.inside listed own)]
  exact own

variable (ctx : Context)

theorem lasts_typeOfBinding (i : Java.TypeIndex) : Lasts (typeOfBinding ctx i) d := by
  cases listed : ctx.bindings.types[i]? with
  | none =>
    rw [typeOfBinding_beyond listed]
    exact lasts_unknownType
  | some b =>
    refine .keyed ((builds_typeOfBinding ctx i).any.path d) Registry.types (·.types)
      (fun _ => typeKey ctx.bindings b) (fun _ _ => rfl) (fun e id known => ?_) fun _ => ?_
    · exact typeOfBinding_of_run (.inside listed (.known known))
    · have registered : resolved? ctx.bindings _ i = _ := (resolveIndex_runs ctx.bindings i d).registers
      rw [resolved?, indexKey, listed] at registered
      exact registered

theorem lasts_typeOfBinding? (i : Option Java.TypeIndex) : Lasts (typeOfBinding? ctx i) d := by
  cases i with
  | none => exact lasts_unknownType
  | some i => exact lasts_typeOfBinding ctx i

theorem lasts_typeOfRef (t : Java.TypeRef) : Lasts (typeOfRef ctx t) d := by
  unfold typeOfRef
  split
  · exact lasts_typeOfBinding ctx _
  · exact lasts_typeOfExpr _

end Types

/-! What depends on the open container, which is there. -/

section Owners

variable {d : Draft} (sited : Sited d)
include sited

theorem Sited.ownerType_stays {e : Draft} (later : Later d e) (top : e.scope.current = d.scope.current) :
    e.ownerType = d.ownerType := by
  unfold ownerType
  rw [top]
  split
  · rfl
  · next id current =>
    obtain ⟨m, known⟩ := (sited.current_holds (c := .method id) current).method
    obtain ⟨n, kept, -, parent⟩ := later.keeps.methods id.index m known
    have kept : e.repository.method? id = some n := kept
    rw [known, kept, Option.map_some, Option.map_some, parent]
  · rfl

theorem lasts_ownerOrUnknown : Lasts ownerOrUnknown d := by
  refine .get (fun e later top => by rw [sited.ownerType_stays later top]) ?_
  split
  · exact .pure _
  · exact lasts_unknownType

omit sited in
theorem lasts_containerOrUnknown : Lasts containerOrUnknown d := by
  refine .get (fun e _ top => by rw [top]) ?_
  split
  · exact .pure _
  · exact lasts_unknownNamespace.bind (.pure _)

end Owners

/-- An item to which a change was made stays as it is when the change is made to it again. -/
theorem modify_again {R : Nat → α → α → Prop} {xs ys : Array α} {i : Nat} {f : α → α}
    (grown : Grown R (xs.modify i f) ys) (there : i < xs.size) (same : ∀ x y, R i (f x) y → f y = y) :
    ys.modify i f = ys := by
  have changed : (xs.modify i f)[i]? = some (f xs[i]) := by
    rw [Array.getElem?_modify, if_pos rfl, Array.getElem?_eq_getElem there, Option.map_some]
  obtain ⟨y, known, related⟩ := grown i _ changed
  apply Array.ext_getElem?
  intro j
  rw [Array.getElem?_modify]
  split
  · next here => rw [← here, known, Option.map_some, same _ y related]
  · rfl

section Declarations

variable {d : Draft}

theorem lasts_declareType {id : TypeId} (there : Present id d) (modifiers : List Modifier) :
    Lasts (do editType id (·.declare modifiers); return id) d := by
  refine ⟨.change (.typeDeclared id modifiers) d, rfl, fun e later _ => ?_⟩
  have same := modify_again later.types there fun t u seen =>
    congrArg ({ u with toNamedEntity := · }) ((seen (NamedEntity.seen_declare _ modifiers)).declare_eq modifiers)
  exact congrArg (fun types => (id, ({ e with repository := { e.repository with types } } : Draft))) same

theorem lasts_declareMethod {id : MethodId} (there : Present id d) (modifiers : List Modifier) : Lasts (do
    modify (edit (·.updateMethod id fun m => { m with toNamedEntity := m.toNamedEntity.declare modifiers }))
    return id) d := by
  refine ⟨.change (.methodDeclared id modifiers) d, rfl, fun e later _ => ?_⟩
  have same := modify_again later.methods there fun m n seen => by
    rw [(seen (NamedEntity.seen_declare _ modifiers)).declare_eq]
  exact congrArg (fun methods => (id, ({ e with repository := { e.repository with methods } } : Draft))) same

theorem lasts_declareAttribute {id : AttributeId} (there : Present id d) (modifiers : List Modifier) : Lasts (do
    modify (edit (·.updateAttribute id fun a =>
      { a with toNamedEntity := { a.toNamedEntity.enrich modifiers with isStub := true } }))
    return id) d := by
  refine ⟨.change (.attributeDeclared id modifiers) d, rfl, fun e later _ => ?_⟩
  have same := modify_again later.attributes there fun a b seen => by
    have seen := seen ⟨rfl, NamedEntity.isEmpty_enrich _ modifiers⟩
    rw [seen.enrich_eq, ← seen.stub]
  exact congrArg (fun attributes => (id, ({ e with repository := { e.repository with attributes } } : Draft))) same

end Declarations

theorem get_bind_apply (f : Draft → Drafting α) (d : Draft) : (get >>= f) d = f d d := rfl

theorem bind_apply (x : Drafting α) (f : α → Drafting β) (d : Draft) : (x >>= f) d = f (x d).1 (x d).2 := rfl

/-- The field under a key. If there is none, it is made when its type is found. -/
def fieldUnder (key name : String) (parent : TypeId) (type : Drafting TypeId) : Drafting AttributeId := do
  ((← get).registry.attributes.get? key).elim (type >>= internAttribute key (.stub name) parent) pure

theorem lasts_fieldUnder {key name : String} {parent : TypeId} {type : Drafting TypeId} {d : Draft}
    (builds : BuildsOnly (fun _ => True) type) : Lasts (fieldUnder key name parent type) d := by
  have known : ∀ e id, e.registry.attributes.get? key = some id → fieldUnder key name parent type e = (id, e) := by
    intro e id known
    unfold fieldUnder
    rw [get_bind_apply, known]
    rfl
  have made : d.registry.attributes.get? key = none →
      fieldUnder key name parent type d = (type >>= internAttribute key (.stub name) parent) d := by
    intro fresh
    unfold fieldUnder
    rw [get_bind_apply, fresh]
    rfl
  refine .keyed ?_ Registry.attributes (·.attributes) (fun _ => key) (fun _ _ => rfl) known fun fresh => ?_
  · cases before : d.registry.attributes.get? key with
    | some id => rw [known d id before]; exact .refl
    | none => rw [made before]; exact (builds.path d).step (.field key name parent (type d).1) trivial
  · rw [made fresh]
    exact internAttribute_registers ..

theorem fieldUnder_registers (key name : String) (parent : TypeId) (type : Drafting TypeId) (d : Draft) :
    (fieldUnder key name parent type d).2.registry.attributes.get? key =
      some (fieldUnder key name parent type d).1 := by
  unfold fieldUnder
  rw [get_bind_apply]
  cases known : d.registry.attributes.get? key with
  | some id => exact known
  | none => exact internAttribute_registers ..

/-- The key of a field that is known only from its declaration. -/
def fieldKey (keying : AttributeKeying) (typeName name : String) : String :=
  match keying with
  | .keyed => typeName ++ "." ++ name
  | .legacy => typeName

theorem attributeOfUnbound_eq (ctx : Context) (fragment : Java.Fragment) (field : Java.FieldDecl) :
    attributeOfUnbound ctx fragment field = (do
      let parent ← ownerOrUnknown
      let key := fieldKey ctx.keying ((← get).repository.typeName parent) fragment.name
      fieldUnder key fragment.name parent (typeOfRef ctx field.type)) := by
  refine bind_congr fun parent => bind_congr fun d => bind_congr fun e => ?_
  cases ctx.keying with
  | keyed =>
    dsimp only [fieldKey]
    cases e.registry.attributes.get? (d.repository.typeName parent ++ "." ++ fragment.name) <;> rfl
  | legacy =>
    dsimp only [fieldKey]
    cases e.registry.attributes.get? (d.repository.typeName parent) <;> rfl

/-! What depends on names. The names are those of elements that are there, so that they stay. -/

section Names

variable {d : Draft} {ctx : Context} (sound : Sound .bare d)
include sound

theorem lasts_typeOfUnboundDecl (decl : Java.TypeDecl) : Lasts (typeOfUnboundDecl ctx decl) d := by
  obtain ⟨walk, outer⟩ := achieves_containerOrUnknown sound
  have rooted := (walk.sound sound).sited.rooted
  refine lasts_containerOrUnknown.bind (.get (fun e later _ => ?_) ?_)
  -- the container is there when the key is made, so that its name stays
  · rw [Repository.childName, rooted.containerName_keep later.keeps outer]
    rfl
  · refine lasts_internType (fun _ => rfl) fun id e => ⟨rfl, ?_⟩
    exact (builds_inheritRefs ctx id _).any.path e

theorem lasts_typeOfDecl (decl : Java.TypeDecl) : Lasts (typeOfDecl ctx decl) d := by
  have kept := Promises.bare_keeps ctx
  unfold typeOfDecl
  split
  · exact (lasts_typeOfBinding ctx _).bind (lasts_declareType (achieves_typeOfBinding kept sound _).post _)
  · exact (lasts_typeOfUnboundDecl sound _).bind
      (lasts_declareType (achieves_typeOfUnboundDecl kept sound False.elim).post _)

theorem lasts_internMethod {name signature : String} {owner : TypeId} {c : Bool}
    {f : Ensured .method → Drafting MethodId} (outer : Present owner d) (existing : ∀ id, f (.existing id) = pure id)
    (created : ∀ id e, (f (.created id) e).1 = id ∧ Path (fun _ => True) e (f (.created id) e).2) :
    Lasts (do f (← internMethod (← memberKey owner signature) (.stub name) owner signature (methodKind c))) d := by
  refine .get (fun e later _ => by rw [sound.sited.rooted.typeName_keep later.keeps outer]) ?_
  exact .interned (.single (.method _ name owner signature c) trivial) Registry.methods (·.methods)
    (fun _ _ => internMethod_of_some) (internMethod_registers ..) existing created

theorem lasts_unresolvedMethod (signature : String) : Lasts (unresolvedMethod signature) d := by
  obtain ⟨walk, outer⟩ := achieves_unknownType sound
  refine lasts_unknownType.bind ?_
  exact lasts_internMethod (c := false) (walk.sound sound) outer (fun _ => rfl) fun _ _ => ⟨rfl, .refl⟩

theorem lasts_methodOfResolved (b : Java.MethodBinding) {owner : TypeId} (outer : Present owner d) :
    Lasts (methodOfResolved ctx b owner) d := by
  refine lasts_internMethod sound outer (fun _ => rfl) fun id e => ⟨rfl, ?_⟩
  have returned := (builds_returnedType ctx b).any.path e
  exact returned.step (.methodBound id b.modifiers (returnedType ctx b e).1) trivial

theorem lasts_methodOfUnboundDecl (decl : Java.MethodDecl) {owner : TypeId} (outer : Present owner d) :
    Lasts (methodOfUnboundDecl ctx decl owner) d := by
  refine lasts_internMethod sound outer (fun _ => rfl) fun id e => ?_
  dsimp only
  cases decl.returnType with
  | none => exact ⟨rfl, .single (.methodTyped id none) trivial⟩
  | some t =>
    dsimp only
    split
    · exact ⟨rfl, .single (.methodTyped id none) trivial⟩
    · have typed := (builds_typeOfRef ctx t).any.path e
      exact ⟨rfl, typed.step (.methodTyped id (some (typeOfRef ctx t e).1)) trivial⟩

theorem lasts_methodOfBinding (i : Java.MethodIndex) : Lasts (methodOfBinding ctx i) d := by
  unfold methodOfBinding
  split
  · exact lasts_unresolvedMethod sound _
  · next b _ =>
    obtain ⟨walk, outer⟩ := achieves_typeOfBinding? (Promises.bare_keeps ctx) sound b.declaringClass
    exact (lasts_typeOfBinding? ctx _).bind (lasts_methodOfResolved (walk.sound sound) b outer)

theorem lasts_methodOfDecl (decl : Java.MethodDecl) : Lasts (methodOfDecl ctx decl) d := by
  have kept := Promises.bare_keeps ctx
  obtain ⟨walk, outer⟩ := achieves_ownerOrUnknown sound
  have sound' := walk.sound sound
  refine (lasts_ownerOrUnknown sound.sited).bind ?_
  dsimp only
  split
  · exact (lasts_methodOfResolved sound' _ outer).bind
      (lasts_declareMethod (achieves_methodOfResolved sound' kept _ outer).post _)
  · exact (lasts_methodOfUnboundDecl sound' _ outer).bind
      (lasts_declareMethod (achieves_methodOfUnboundDecl sound' kept _ outer).post _)

theorem lasts_parameterOfDecl (decl : Java.ParameterDecl) {method : MethodId} (outer : Present method d) :
    Lasts (parameterOfDecl ctx decl method) d := by
  refine .keyed ((builds_parameterOfDecl ctx decl method).any.path d) Registry.parameters (·.parameters)
    (fun e => e.repository.methodName method ++ "." ++ decl.name) (fun e later => ?_) (fun e id known => ?_)
    fun fresh => ?_
  · rw [sound.sited.rooted.methodName_keep later.keeps outer]
  · unfold parameterOfDecl
    rw [get_bind_apply]
    simp only [known]
    rfl
  · unfold parameterOfDecl
    rw [get_bind_apply]
    simp only [fresh]
    exact internParameter_registers ..

theorem lasts_attributeWithin (b : Java.VariableBinding) {parent : TypeId} (outer : Present parent d) :
    Lasts (attributeWithin ctx b parent) d := by
  refine .get (fun e later _ => by rw [sound.sited.rooted.typeName_keep later.keeps outer]) ?_
  exact lasts_fieldUnder (builds_typeOfBinding? ctx b.type).any

theorem lasts_attributeOfBinding (b : Java.VariableBinding) : Lasts (attributeOfBinding ctx b) d := by
  rw [attributeOfBinding_eq]
  cases b.declaringClass with
  | some i =>
    obtain ⟨walk, outer⟩ := achieves_typeOfBinding (Promises.bare_keeps ctx) sound i
    exact (lasts_typeOfBinding ctx i).bind (lasts_attributeWithin (walk.sound sound) b outer)
  | none =>
    obtain ⟨walk, outer⟩ := achieves_ownerOrUnknown sound
    exact (lasts_ownerOrUnknown sound.sited).bind (lasts_attributeWithin (walk.sound sound) b outer)

theorem lasts_attributeOfUnbound (fragment : Java.Fragment) (field : Java.FieldDecl) :
    Lasts (attributeOfUnbound ctx fragment field) d := by
  obtain ⟨walk, outer⟩ := achieves_ownerOrUnknown sound
  have rooted := (walk.sound sound).sited.rooted
  rw [attributeOfUnbound_eq]
  refine (lasts_ownerOrUnknown sound.sited).bind (.get (fun e later _ => ?_) ?_)
  · rw [rooted.typeName_keep later.keeps outer]
  · exact lasts_fieldUnder (builds_typeOfRef ctx field.type).any

theorem lasts_attributeOfFragment (fragment : Java.Fragment) (field : Java.FieldDecl) :
    Lasts (attributeOfFragment ctx fragment field) d := by
  have kept := Promises.bare_keeps ctx
  unfold attributeOfFragment
  dsimp only
  cases fieldBinding? ctx fragment with
  | some b =>
    exact (lasts_attributeOfBinding sound b).bind
      (lasts_declareAttribute (achieves_attributeOfBinding kept sound b).post _)
  | none =>
    exact (lasts_attributeOfUnbound sound fragment field).bind
      (lasts_declareAttribute (achieves_attributeOfUnbound kept sound fragment field).post _)

end Names

end Draft

namespace Operation

/-- The operations that find what has a name, and make it if there is nothing of that name. -/
def Finds : Operation → Bool
  | .ensureNamespace _ | .unknownNamespace => true
  | .unknownType | .typeOfBinding _ | .typeOfRef _ | .typeOfExpr _ | .typeOfDecl _ => true
  | .methodOfBinding _ | .methodOfDecl _ | .unresolvedMethod _ => true
  | .parameterOfDecl .. | .attributeOfFragment .. | .attributeOfBinding _ => true
  | _ => false

theorem lasts_perform {ctx : Context} {d : Draft} {op : Operation} (sound : Draft.Sound .bare d)
    (fits : op.Fits .bare d) (finds : op.Finds = true) : Draft.Lasts (op.perform ctx) d := by
  cases op with
  | ensureNamespace name => exact (Draft.lasts_ensureNamespace name).bind (.pure _)
  | unknownNamespace => exact Draft.lasts_unknownNamespace.bind (.pure _)
  | unknownType => exact Draft.lasts_unknownType.bind (.pure _)
  | typeOfBinding i => exact (Draft.lasts_typeOfBinding ctx i).bind (.pure _)
  | typeOfRef t => exact (Draft.lasts_typeOfRef ctx t).bind (.pure _)
  | typeOfExpr t => exact (Draft.lasts_typeOfExpr t).bind (.pure _)
  | typeOfDecl decl => exact (Draft.lasts_typeOfDecl sound decl).bind (.pure _)
  | methodOfBinding i => exact (Draft.lasts_methodOfBinding sound i).bind (.pure _)
  | methodOfDecl decl => exact (Draft.lasts_methodOfDecl sound decl).bind (.pure _)
  | unresolvedMethod signature => exact (Draft.lasts_unresolvedMethod sound signature).bind (.pure _)
  | parameterOfDecl decl method => exact (Draft.lasts_parameterOfDecl sound decl fits).bind (.pure _)
  | attributeOfFragment fragment field => exact (Draft.lasts_attributeOfFragment sound fragment field).bind (.pure _)
  | attributeOfBinding b => exact (Draft.lasts_attributeOfBinding sound b).bind (.pure _)
  | _ => cases finds

theorem answers_element {ctx : Context} {op : Operation} (finds : op.Finds = true) (d : Draft) :
    ∃ x, (op.perform ctx d).1 = .element (some x) := by
  cases op with
  | enter | leave | currentMethod | ownerType | currentParameter | variableOfExpr | markWrite => cases finds
  | typeOfAnonymous | initializerMethod | localVariable | inherit | inheritBinding | inheritRef => cases finds
  | invoke | invokeExpr | accessBinding | accessExpr => cases finds
  | _ => exact ⟨_, rfl⟩

/-- A draft is sound as soon as what is open in it is there, and the containers around everything that is there. -/
theorem sound_of_grounded {ctx : Context} {history : List Operation}
    (opened : ∀ c ∈ (applyAll ctx history {}).scope.frames, (applyAll ctx history {}).repository.Holds c.element)
    (grounded : ∀ c : Container, (applyAll ctx history {}).repository.Holds c.element →
      (applyAll ctx history {}).repository.Grounded c) : Draft.Sound .bare (applyAll ctx history {}) := by
  have start := (sound_empty .bare).sited
  -- these two are so after any history
  have known : (applyAll ctx history {}).registry.Leads (applyAll ctx history {}).repository :=
    applyAll_invariant (P := fun d => d.registry.Leads d.repository) ctx (fun c _ h => h.change c) (fun _ _ h => h)
      history {} start.known
  have placed : (applyAll ctx history {}).repository.PlacedParameters :=
    applyAll_invariant (P := fun d => d.repository.PlacedParameters) ctx (fun c _ h => h.change c) (fun _ _ h => h)
      history {} start.placed
  exact ⟨⟨Repository.rooted_iff.mpr grounded, opened, known, placed⟩, False.elim, False.elim⟩

/-- What an operation has found it finds again. Whatever is done after it, if the same container is open in the end, it
gives the same element and leaves the draft as it is. Of the draft in which it is first performed it is asked that what
is open and any method given to the operation is there, and that the containers around everything that is there are
there, up to a namespace; nothing is asked of what is done before or after. -/
theorem perform_again (ctx : Context) (history : List Operation) (op : Operation) (finds : op.Finds = true)
    (between : List Operation) :
    let before := applyAll ctx history {}
    let after := applyAll ctx between (op.apply ctx before)
    (∀ c ∈ before.scope.frames, before.repository.Holds c.element) →
    (∀ decl method, op = .parameterOfDecl decl method → before.repository.Holds method.element) →
    (∀ c : Container, before.repository.Holds c.element → before.repository.Grounded c) →
    after.scope.current = before.scope.current → ∃ x,
      (op.perform ctx before).1 = .element (some x) ∧ op.perform ctx after = (.element (some x), after) := by
  intro before after opened given grounded top
  have fits : op.Fits .bare before := by
    cases op with
    | parameterOfDecl decl method => exact given decl method rfl
    | typeOfDecl => exact False.elim
    | enter | inherit | inheritBinding | inheritRef | markWrite => cases finds
    | _ => trivial
  -- names are kept from a sound draft on, so that nothing need be known of the drafts in between
  have again := (lasts_perform (sound_of_grounded opened grounded) fits finds).again after (.history ctx between _) top
  obtain ⟨x, answer⟩ := answers_element finds before
  exact ⟨x, answer, answer ▸ again⟩

/-- The parameter of a method is found again when another method of the class was seen, and the first is open again. A
container that is not there was open before, and is opened again in between. -/
theorem perform_again_parameter :
    let ctx : Context := { bindings := sampleTable }
    let op : Operation := .parameterOfDecl { name := "x", type := { written := .simple "X" } } ⟨0⟩
    let before := applyAll ctx (.enter (.type ⟨9⟩) :: .leave :: sampleHistory.take 6) {}
    let between : List Operation := [.leave, .methodOfDecl ⟨"n", none, false, none, [], [], []⟩,
      .enter (.method ⟨7⟩), .typeOfDecl ⟨"D", .classType, none, [], none, [], []⟩, .leave, .enter (.method ⟨0⟩)]
    let after := applyAll ctx between (op.apply ctx before)
    (∀ c ∈ before.scope.frames, before.repository.Holds c.element) ∧
      (∀ c : Container, before.repository.Holds c.element → before.repository.Grounded c) ∧
      after.scope.current = before.scope.current ∧ ∃ x,
        (op.perform ctx before).1 = .element (some x) ∧ op.perform ctx after = (.element (some x), after) := by
  intro ctx op before between after
  have fits : Admissible .bare ctx (sampleHistory.take 6) {} := by
    refine ⟨trivial, ?_, False.elim, ?_, trivial, ?_, trivial⟩
    all_goals
      change 0 < _
      decide +kernel
  -- what was opened has been closed again, and nothing is left of it
  have back : apply ctx .leave (apply ctx (.enter (.type ⟨9⟩)) {}) = {} := rfl
  have same : before = applyAll ctx (sampleHistory.take 6) {} := by
    change applyAll ctx _ _ = _
    rw [applyAll_cons, applyAll_cons, back]
  have sited : Draft.Sited before := by
    rw [same]
    exact (sound_applyAll (Promises.bare_keeps ctx) _ (sound_empty .bare) fits).sited
  have grounded := Repository.rooted_iff.mp sited.rooted
  have given : ∀ decl method, op = .parameterOfDecl decl method → before.repository.Holds method.element := by
    intro decl method same
    obtain ⟨-, rfl⟩ := Operation.parameterOfDecl.inj same
    change 0 < _
    decide +kernel
  have top : after.scope.current = before.scope.current := by decide +kernel
  exact ⟨sited.opened, grounded, top, perform_again ctx _ op rfl between sited.opened given grounded top⟩

/-- It is not enough that what is open is there. A class is declared inside a type that is not there; when that type is
made, the class has another name, and its method is not found again. -/
theorem perform_again_displaced :
    let ctx : Context := {}
    let op : Operation := .methodOfDecl ⟨"m", none, false, none, [], [], []⟩
    let before := applyAll ctx [.enter (.type ⟨1⟩), .typeOfDecl ⟨"A", .classType, none, [], none, [], []⟩, .leave,
      .enter (.type ⟨0⟩)] {}
    let between : List Operation := [.typeOfExpr (.simple "B")]
    let after := applyAll ctx between (op.apply ctx before)
    op.Finds = true ∧ (∀ c ∈ before.scope.frames, before.repository.Holds c.element) ∧ op.Fits .bare before ∧
      Admissible .bare ctx between (op.apply ctx before) ∧ after.scope.current = before.scope.current ∧
      (op.perform ctx before).1 = .ofId (⟨0⟩ : MethodId) ∧ (op.perform ctx after).1 = .ofId (⟨1⟩ : MethodId) := by
  intro ctx op before between after
  have frames : before.scope.frames = [.type ⟨0⟩] := by decide +kernel
  have there : before.repository.types.size = 1 := by decide +kernel
  refine ⟨rfl, fun c mem => ?_, trivial, ⟨trivial, trivial⟩, by decide +kernel, by decide +kernel, by decide +kernel⟩
  rw [frames] at mem
  cases List.mem_singleton.mp mem
  exact Nat.lt_of_lt_of_eq Nat.zero_lt_one there.symm

end Operation

end Famix
