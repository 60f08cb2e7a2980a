import Famix.Proofs.Walk

/-!
The steps of a construction are walks. Begun in a sound draft, each makes only proper changes, and what it gives is
there when it is done.
-/
namespace Famix

/-- What is not resolved is what was asked for. -/
theorem Java.BindingTable.resolveIn_hint {entries : List α} {i : Option Nat} {hint given : β}
    (unresolved : resolveIn entries i hint = .unresolved given) : given = hint := by
  unfold resolveIn at unresolved
  split at unresolved
  · exact (Resolution.unresolved.inj unresolved).symm
  · split at unresolved
    · cases unresolved
    · exact (Resolution.unresolved.inj unresolved).symm

/-- The table and the keying are such that the names promised to be consistent are. -/
def Context.Keeps (ctx : Context) (p : Promises) : Prop :=
  p.named → NamesConsistent ctx.bindings ∧ ctx.keying = .keyed

namespace Draft

def Present (id : ElementId kind) (d : Draft) : Prop := d.repository.Holds id.element

/-- Begun in `d`, the step makes only proper changes, and what it gives is as said. -/
structure Achieves (p : Promises) (f : Drafting α) (d : Draft) (post : α → Draft → Prop) : Prop where
  walk : Walk p d (f d).2
  post : post (f d).1 (f d).2

variable {p : Promises} {d : Draft}

namespace Achieves

variable {post : β → Draft → Prop}

theorem pure {b : β} (h : post b d) : Achieves p (pure b) d post := ⟨.refl, h⟩

theorem bind {x : Drafting α} {f : α → Drafting β} {mid : α → Draft → Prop} (hx : Achieves p x d mid)
    (sound : Sound p d) (hf : ∀ a e, Walk p d e → Sound p e → mid a e → Achieves p (f a) e post) :
    Achieves p (x >>= f) d post := by
  have rest := hf (x d).1 (x d).2 hx.walk (hx.walk.sound sound) hx.post
  exact ⟨hx.walk.trans rest.walk, rest.post⟩

theorem map {x : Drafting α} {f : α → β} (hx : Achieves p x d fun a e => post (f a) e) :
    Achieves p (f <$> x) d post := ⟨hx.walk, hx.post⟩

theorem some {x : Drafting (ElementId kind)} (hx : Achieves p x d Present) :
    Achieves p (Option.some <$> x) d fun o e => ∀ id ∈ o, Present id e :=
  map ⟨hx.walk, fun _ given => Option.some.inj given ▸ hx.post⟩

theorem get {f : Draft → Drafting β} (h : Achieves p (f d) d post) : Achieves p (get >>= f) d post :=
  ⟨h.walk, h.post⟩

theorem memberKey {f : String → Drafting β} {owner : TypeId} {name : String}
    (h : Achieves p (f (d.repository.typeName owner ++ "." ++ name)) d post) :
    Achieves p (Draft.memberKey owner name >>= f) d post := ⟨h.walk, h.post⟩

theorem currentMethod {f : Option MethodId → Drafting β} (h : Achieves p (f d.scope.currentMethod) d post) :
    Achieves p (Draft.currentMethod >>= f) d post := ⟨h.walk, h.post⟩

theorem change {f : Drafting β} (c : Change) (makes : (f d).2 = c.apply d) (proper : c.Proper p d) :
    Achieves p f d fun _ _ => True := ⟨makes ▸ .single c proper, trivial⟩

theorem changeThen {f : Drafting β} {id : ElementId kind} (c : Change) (makes : (f d).2 = c.apply d)
    (proper : c.Proper p d) (held : Present id d) : Achieves p (f >>= fun _ => Pure.pure id) d Present := by
  have walk : Walk p d (f d).2 := makes ▸ .single c proper
  exact ⟨walk, walk.keeps.holds held⟩

end Achieves

/-! Elements that are there. -/

theorem holds_toList {o : Option (ElementId kind)} (h : ∀ id ∈ o, Present id d) :
    ∀ x ∈ o.toList.map (·.element), d.repository.Holds x := by
  intro x mem
  obtain ⟨id, listed, rfl⟩ := List.mem_map.mp mem
  exact h id (Option.mem_toList.mp listed)

theorem Sited.current_holds (h : Sited d) {c : Container} (open_ : d.scope.current = some c) :
    d.repository.Holds c.element := h.opened c (List.mem_of_head? open_)

theorem Sited.ownerType_holds (h : Sited d) {id : TypeId} (owned : d.ownerType = some id) : Present id d := by
  unfold ownerType at owned
  split at owned
  · next current =>
    cases owned
    exact h.current_holds current
  · obtain ⟨m, known, rfl⟩ := Option.map_eq_some_iff.mp owned
    exact (h.rooted.method_parent known).holds
  · cases owned

theorem Sited.currentMethod_holds (h : Sited d) : ∀ m ∈ d.scope.currentMethod, Present m d := by
  intro m open_
  unfold Scope.currentMethod at open_
  split at open_
  · next current =>
    cases open_
    exact h.current_holds current
  · cases open_

theorem Sited.currentParameter_holds (h : Sited d) (name : String) :
    ∀ q ∈ d.currentParameter name, Present q d := by
  intro q found
  simp only [currentParameter, Option.mem_def, Option.bind_eq_bind, Option.bind_eq_some_iff] at found
  obtain ⟨m, -, parameter, first, same⟩ := found
  obtain ⟨id, -, known⟩ := List.mem_filterMap.mp (List.mem_of_find?_eq_some first)
  have own : parameter.id = ⟨id.index⟩ := h.placed id.index parameter known
  rw [← Option.some.inj same, own]
  exact (Array.getElem?_eq_some_iff.mp known).1

theorem internMethod_registers (key : String) (entity : NamedEntity) (parent : TypeId) (signature : String)
    (kind : MethodKind) (d : Draft) : (internMethod key entity parent signature kind d).2.registry.methods.get? key =
      some (internMethod key entity parent signature kind d).1.id := by
  cases known : d.registry.methods.get? key with
  | some id => rw [internMethod_of_some known]; exact known
  | none => rw [internMethod_of_none known]; simp [addMethod, Ensured.id]

theorem internAttribute_registers (key : String) (entity : NamedEntity) (parent declared : TypeId) (d : Draft) :
    (internAttribute key entity parent declared d).2.registry.attributes.get? key =
      some (internAttribute key entity parent declared d).1 := by
  cases known : d.registry.attributes.get? key with
  | some id => rw [internAttribute_of_some known]; exact known
  | none => rw [internAttribute_of_none known]; simp [addAttribute]

theorem internParameter_registers (key : String) (entity : NamedEntity) (parent : MethodId) (declared : TypeId)
    (d : Draft) : (internParameter key entity parent declared d).2.registry.parameters.get? key =
      some (internParameter key entity parent declared d).1 := by
  cases known : d.registry.parameters.get? key with
  | some id => rw [internParameter_of_some known]; exact known
  | none => rw [internParameter_of_none known]; simp [addParameter]

/-! Types. -/

section Types

variable (sound : Sound p d)
include sound

theorem achieves_ensureNamespace (name : String) : Achieves p (ensureNamespace name) d Present := by
  have walk := ensureNamespace_walk (p := p) name d
  exact ⟨walk, (walk.sound sound).holds_namespace (ensureNamespace_registers name d)⟩

theorem achieves_unknownTypeNamed (name : String) : Achieves p (unknownTypeNamed name) d Present := by
  have walk := unknownTypeNamed_walk name sound
  exact ⟨walk, (walk.sound sound).holds_type (unknownTypeNamed_registers name d)⟩

theorem achieves_unknownNamespace : Achieves p unknownNamespace d Present := by
  have walk := unknownNamespace_walk (p := p) d
  exact ⟨walk, (walk.sound sound).holds_namespace (unknownNamespace_registers d)⟩

theorem achieves_unknownType : Achieves p unknownType d Present := by
  have walk := unknownType_walk sound
  exact ⟨walk, (walk.sound sound).holds_type (unknownType_registers d)⟩

theorem achieves_internType {key name : String} {c : Container} {kind : TypeKind}
    (outer : d.repository.Holds c.element) (open_ : kind.references = [])
    (named : p.named → key = d.repository.childName c name ∧ key ≠ "") :
    Achieves p (internType key name c kind) d fun ensured e => Present ensured.id e := by
  have walk := internType_walk outer open_ named
  exact ⟨walk, (walk.sound sound).holds_type (internType_registers key name c kind d)⟩

theorem achieves_typeOfExpr (t : Java.TypeExpr) : Achieves p (typeOfExpr t) d Present := by
  unfold typeOfExpr
  split
  · exact achieves_unknownTypeNamed sound _
  · exact achieves_unknownType sound

theorem achieves_ownerOrUnknown : Achieves p ownerOrUnknown d Present := by
  refine .get ?_
  split
  · next owned => exact .pure (sound.sited.ownerType_holds owned)
  · exact achieves_unknownType sound

theorem achieves_containerOrUnknown :
    Achieves p containerOrUnknown d fun c e => e.repository.Holds c.element := by
  refine .get ?_
  split
  · next current => exact .pure (sound.sited.current_holds current)
  · exact (achieves_unknownNamespace sound).bind sound fun _ _ _ _ there => .pure there

theorem achieves_anonymousContainer :
    Achieves p anonymousContainer d fun c e => e.repository.Holds c.element := by
  refine (achieves_containerOrUnknown sound).bind sound fun c e _ sound there => ?_
  cases c with
  | ns id => exact .pure there
  | type id => exact .pure there
  | method id =>
    refine .get ?_
    split
    · next m known => exact .pure (sound.sited.rooted.method_parent known).holds
    · exact .pure there

end Types

theorem achieves_inherit {subclass superclass : TypeId}
    (there : p.linked → Present subclass d ∧ Present superclass d) :
    Achieves p (inherit subclass superclass) d fun _ _ => True := by
  refine .change (.inheritance subclass superclass) rfl ⟨fun linked x mem => ?_, fun _ => trivial, trivial⟩
  rcases List.mem_pair.mp mem with rfl | rfl
  · exact (there linked).1
  · exact (there linked).2

section References

variable {ctx : Context} (kept : ctx.Keeps p) (sound : Sound p d)
include kept sound

theorem achieves_typeOfBinding (i : Java.TypeIndex) : Achieves p (typeOfBinding ctx i) d Present := by
  have run := resolveIndex_runs ctx.bindings i d
  have walk := (run.walk (fun promised => (kept promised).1) sound trivial).1
  exact ⟨walk, (walk.sound sound).holds_type run.registers⟩

theorem achieves_typeOfBinding? (i : Option Java.TypeIndex) : Achieves p (typeOfBinding? ctx i) d Present := by
  cases i with
  | none => exact achieves_unknownType sound
  | some i => exact achieves_typeOfBinding kept sound i

theorem achieves_typeOfRef (t : Java.TypeRef) : Achieves p (typeOfRef ctx t) d Present := by
  unfold typeOfRef
  split
  · exact achieves_typeOfBinding kept sound _
  · exact achieves_typeOfExpr sound _

theorem achieves_inheritBinding {subclass : TypeId} (there : p.linked → Present subclass d) (i : Java.TypeIndex) :
    Achieves p (inheritBinding ctx subclass i) d fun _ _ => True :=
  (achieves_typeOfBinding kept sound i).bind sound fun _ _ walk _ held =>
    achieves_inherit fun linked => ⟨walk.keeps.holds (there linked), held⟩

theorem achieves_inheritRef {subclass : TypeId} (there : p.linked → Present subclass d) (t : Java.TypeRef) :
    Achieves p (inheritRef ctx subclass t) d fun _ _ => True :=
  (achieves_typeOfRef kept sound t).bind sound fun _ _ walk _ held =>
    achieves_inherit fun linked => ⟨walk.keeps.holds (there linked), held⟩

theorem achieves_inheritRefs {subclass : TypeId} (there : Present subclass d) (ts : List Java.TypeRef) :
    Achieves p (inheritRefs ctx subclass ts) d fun _ _ => True := by
  induction ts generalizing d with
  | nil => exact .pure trivial
  | cons t ts ih =>
    exact (achieves_inheritRef kept sound (fun _ => there) t).bind sound fun _ _ walk sound _ =>
      ih sound (walk.keeps.holds there)

theorem achieves_typeOfUnboundDecl {decl : Java.TypeDecl} (nonempty : p.named → decl.name ≠ "") :
    Achieves p (typeOfUnboundDecl ctx decl) d Present := by
  refine (achieves_containerOrUnknown sound).bind sound fun c e _ sound outer => .get ?_
  have plain : (declaredKind decl.kind).references = [] := by cases decl.kind <;> rfl
  refine (achieves_internType sound outer plain fun promised =>
    ⟨rfl, joinName_ne (nonempty promised) _⟩).bind sound fun ensured e _ sound held => ?_
  cases ensured with
  | existing id => exact .pure held
  | created id =>
    exact (achieves_inheritRefs kept sound held _).bind sound fun _ _ walk _ _ =>
      .pure (walk.keeps.holds held)

theorem achieves_typeOfDecl {decl : Java.TypeDecl} (nonempty : p.named → decl.name ≠ "") :
    Achieves p (typeOfDecl ctx decl) d Present := by
  have finish : ∀ id e, Present id e →
      Achieves p (do editType id (·.declare decl.modifiers); return id) e Present := fun id e held =>
    .changeThen (.typeDeclared id decl.modifiers) rfl ⟨nofun, fun _ => trivial, trivial⟩ held
  unfold typeOfDecl
  cases resolved : ctx.bindings.resolveType decl.binding decl with
  | resolved i b => exact (achieves_typeOfBinding kept sound i).bind sound fun id e _ _ => finish id e
  | unresolved hint =>
    obtain rfl : hint = decl := Java.BindingTable.resolveIn_hint resolved
    exact (achieves_typeOfUnboundDecl kept sound nonempty).bind sound fun id e _ _ => finish id e

theorem achieves_typeOfAnonymous (anonymous : Java.AnonymousClass) (t : Java.TypeRef) :
    Achieves p (typeOfAnonymous ctx anonymous t) d Present := by
  refine (achieves_anonymousContainer sound).bind sound fun c e _ sound outer => .get ?_
  have numbered : ∀ number : String, "$" ++ number ≠ "" := by
    intro number empty
    have := congrArg String.length empty
    simp at this
  refine Achieves.bind (achieves_internType sound outer ?_ fun _ => ⟨rfl, joinName_ne (numbered _) _⟩) sound
    fun ensured e _ sound held => ?_
  · split
    · exact kindOf_references _
    · rfl
  · cases ensured with
    | existing id => exact .pure held
    | created id =>
      have opened : Achieves p (editType id ({ · with isStub := false })) e fun _ _ => True :=
        .change (.typeOpened id) rfl ⟨nofun, fun _ => trivial, trivial⟩
      refine opened.bind sound fun _ e walk sound _ => ?_
      have held := walk.keeps.holds held
      exact (achieves_inheritRef kept sound (fun _ => held) t).bind sound fun _ _ walk _ _ =>
        .pure (walk.keeps.holds held)

end References

/-! Methods. -/

section Methods

variable (sound : Sound p d)
include sound

theorem achieves_internMethod {key name signature : String} {parent : TypeId} {isConstructor : Bool}
    (outer : Present parent d) (named : key = d.repository.typeName parent ++ "." ++ signature) :
    Achieves p (internMethod key (.stub name) parent signature (methodKind isConstructor)) d
      fun ensured e => Present ensured.id e := by
  have walk : Walk p d (internMethod key (.stub name) parent signature (methodKind isConstructor) d).2 :=
    .single (.method key name parent signature isConstructor)
      ⟨fun _ x mem => List.mem_singleton.mp mem ▸ outer, fun _ => named, named⟩
  exact ⟨walk, (walk.sound sound).sited.known.methods _ _ (internMethod_registers ..)⟩

theorem achieves_unresolvedMethod (signature : String) : Achieves p (unresolvedMethod signature) d Present := by
  refine (achieves_unknownType sound).bind sound fun owner e _ sound held => .memberKey ?_
  have interned : Achieves p (internMethod (e.repository.typeName owner ++ "." ++ signature)
      (.stub (String.ofList (signature.toList.takeWhile (· ≠ '(')))) owner signature (methodKind false)) e
      fun ensured e => Present ensured.id e := achieves_internMethod sound held rfl
  exact interned.bind sound fun _ _ _ _ held => .pure held

theorem achieves_initializerMethod (decl : Java.InitializerDecl) :
    Achieves p (initializerMethod decl) d Present := by
  refine (achieves_ownerOrUnknown sound).bind sound fun owner e _ sound held => ?_
  have change := Achieves.change (p := p) (d := e) (f := insert (Repository.insertMethod
    ⟨initializerName, false, .ofList (if decl.isStatic then [.static] else [])⟩ owner initializerName
    .initializer none)) (.initializer owner (.ofList (if decl.isStatic then [.static] else []))) rfl
    ⟨fun _ x mem => List.mem_singleton.mp mem ▸ held, fun _ => trivial, trivial⟩
  exact ⟨change.walk, by
    simp [Present, Repository.Holds, Repository.count, ElementId.element, insert, Repository.insertMethod]⟩

variable {ctx : Context} (kept : ctx.Keeps p)
include kept

theorem achieves_returnedType (b : Java.MethodBinding) :
    Achieves p (returnedType ctx b) d fun declared e => ∀ id ∈ declared, Present id e := by
  unfold returnedType
  have nothing : ∀ id ∈ (none : Option TypeId), Present id d := by simp
  split
  · exact .pure nothing
  · split
    · split
      · exact .pure nothing
      · exact .some (achieves_typeOfBinding kept sound _)
    · exact .pure nothing

theorem achieves_methodOfResolved (b : Java.MethodBinding) {owner : TypeId} (outer : Present owner d) :
    Achieves p (methodOfResolved ctx b owner) d Present := by
  refine .memberKey ((achieves_internMethod sound outer rfl).bind sound fun ensured e _ sound held => ?_)
  cases ensured with
  | existing id => exact .pure held
  | created id =>
    refine (achieves_returnedType sound kept b).bind sound fun declared e walk _ there => ?_
    exact .changeThen (.methodBound id b.modifiers declared) rfl
      ⟨fun _ => holds_toList there, fun _ => trivial, trivial⟩ (walk.keeps.holds held)

theorem achieves_methodOfBinding (i : Java.MethodIndex) : Achieves p (methodOfBinding ctx i) d Present := by
  unfold methodOfBinding
  split
  · exact achieves_unresolvedMethod sound _
  · exact (achieves_typeOfBinding? kept sound _).bind sound fun _ _ _ sound held =>
      achieves_methodOfResolved sound kept _ held

theorem achieves_methodOfUnboundDecl (decl : Java.MethodDecl) {owner : TypeId} (outer : Present owner d) :
    Achieves p (methodOfUnboundDecl ctx decl owner) d Present := by
  refine .memberKey ((achieves_internMethod sound outer rfl).bind sound fun ensured e _ sound held => ?_)
  cases ensured with
  | existing id => exact .pure held
  | created id =>
    have finish : ∀ (declared : Option TypeId) e, Present id e → (∀ t ∈ declared, Present t e) →
        Achieves p (do modify (edit (·.updateMethod id fun m => { m with declaredType := declared })); return id)
          e Present := fun declared e held there =>
      .changeThen (.methodTyped id declared) rfl ⟨fun _ => holds_toList there, fun _ => trivial, trivial⟩ held
    dsimp only
    cases decl.returnType with
    | none => exact finish none e held nofun
    | some t =>
      dsimp only
      split
      · exact finish none e held nofun
      · exact (Achieves.some (achieves_typeOfRef kept sound t)).bind sound fun declared e walk _ there =>
          finish declared e (walk.keeps.holds held) there

theorem achieves_methodOfDecl (decl : Java.MethodDecl) : Achieves p (methodOfDecl ctx decl) d Present := by
  have finish : ∀ id e, Present id e → Achieves p (do
      modify (edit (·.updateMethod id fun m =>
        { m with toNamedEntity := m.toNamedEntity.declare decl.modifiers }))
      return id) e Present := fun id e held =>
    .changeThen (.methodDeclared id decl.modifiers) rfl ⟨nofun, fun _ => trivial, trivial⟩ held
  refine (achieves_ownerOrUnknown sound).bind sound fun owner e _ sound outer => ?_
  dsimp only
  split
  · exact (achieves_methodOfResolved sound kept _ outer).bind sound fun id e _ _ => finish id e
  · exact (achieves_methodOfUnboundDecl sound kept _ outer).bind sound fun id e _ _ => finish id e

end Methods

/-! Variables. -/

section Variables

variable {ctx : Context} (kept : ctx.Keeps p) (sound : Sound p d)

theorem achieves_internAttribute {key name : String} {parent declared : TypeId} (sound : Sound p d)
    (outer : Present parent d) (there : Present declared d)
    (named : p.named → key = d.repository.typeName parent ++ "." ++ name) :
    Achieves p (internAttribute key (.stub name) parent declared) d Present := by
  have walk : Walk p d (internAttribute key (.stub name) parent declared d).2 := by
    refine .single (.field key name parent declared) ⟨fun _ x mem => ?_, named, trivial⟩
    rcases List.mem_pair.mp mem with rfl | rfl
    · exact outer
    · exact there
  exact ⟨walk, (walk.sound sound).sited.known.attributes _ _ (internAttribute_registers ..)⟩

theorem achieves_internParameter {key name : String} {parent : MethodId} {declared : TypeId} (sound : Sound p d)
    (outer : Present parent d) (there : Present declared d)
    (named : key = d.repository.methodName parent ++ "." ++ name) :
    Achieves p (internParameter key { NamedEntity.stub name with isStub := false } parent declared) d Present := by
  have walk : Walk p d (internParameter key { NamedEntity.stub name with isStub := false } parent declared d).2 := by
    refine .single (.parameter key name parent declared) ⟨fun _ x mem => ?_, fun _ => named, named⟩
    rcases List.mem_pair.mp mem with rfl | rfl
    · exact outer
    · exact there
  exact ⟨walk, (walk.sound sound).sited.known.parameters _ _ (internParameter_registers ..)⟩

include kept sound

theorem achieves_parameterOfDecl (decl : Java.ParameterDecl) {method : MethodId} (outer : Present method d) :
    Achieves p (parameterOfDecl ctx decl method) d Present := by
  refine .get ?_
  dsimp only
  split
  · next known => exact .pure (sound.sited.known.parameters _ _ known)
  · refine (achieves_typeOfRef kept sound decl.type).bind sound fun declared e walk sound' there => ?_
    refine achieves_internParameter sound' (walk.keeps.holds outer) there ?_
    -- the key was made before the type was resolved, which does not change the name of the method
    rw [sound.sited.rooted.methodName_keep walk.keeps outer]

theorem achieves_attributeWithin (b : Java.VariableBinding) {parent : TypeId} (outer : Present parent d) :
    Achieves p (attributeWithin ctx b parent) d Present := by
  refine .memberKey (.get ?_)
  cases known : d.registry.attributes.get? (d.repository.typeName parent ++ "." ++ b.name) with
  | some id => exact .pure (sound.sited.known.attributes _ _ known)
  | none =>
    refine (achieves_typeOfBinding? kept sound b.type).bind sound fun declared e walk sound' there => ?_
    refine achieves_internAttribute sound' (walk.keeps.holds outer) there fun _ => ?_
    rw [sound.sited.rooted.typeName_keep walk.keeps outer]

theorem achieves_attributeOfBinding (b : Java.VariableBinding) :
    Achieves p (attributeOfBinding ctx b) d Present := by
  rw [attributeOfBinding_eq]
  have parent : Achieves p (b.declaringClass.elim ownerOrUnknown (typeOfBinding ctx)) d Present := by
    cases b.declaringClass with
    | some i => exact achieves_typeOfBinding kept sound i
    | none => exact achieves_ownerOrUnknown sound
  exact parent.bind sound fun _ _ _ sound outer => achieves_attributeWithin kept sound b outer

theorem achieves_attributeOfUnbound (fragment : Java.Fragment) (field : Java.FieldDecl) :
    Achieves p (attributeOfUnbound ctx fragment field) d Present := by
  refine (achieves_ownerOrUnknown sound).bind sound fun parent e _ sound outer => .get (.get ?_)
  split
  · next known => exact .pure (sound.sited.known.attributes _ _ known)
  · refine (achieves_typeOfRef kept sound field.type).bind sound fun declared f walk sound' there => ?_
    refine achieves_internAttribute sound' (walk.keeps.holds outer) there fun promised => ?_
    rw [sound.sited.rooted.typeName_keep walk.keeps outer, (kept promised).2]

theorem achieves_attributeOfFragment (fragment : Java.Fragment) (field : Java.FieldDecl) :
    Achieves p (attributeOfFragment ctx fragment field) d Present := by
  have finish : ∀ (modifiers : List Modifier) (id : AttributeId) e, Present id e → Achieves p (do
      modify (edit (·.updateAttribute id fun a =>
        { a with toNamedEntity := { a.toNamedEntity.enrich modifiers with isStub := true } }))
      return id) e Present := fun modifiers id e held =>
    .changeThen (.attributeDeclared id modifiers) rfl ⟨nofun, fun _ => trivial, trivial⟩ held
  unfold attributeOfFragment
  dsimp only
  cases fieldBinding? ctx fragment with
  | some b =>
    exact (achieves_attributeOfBinding kept sound b).bind sound fun id e _ _ => finish b.modifiers id e
  | none =>
    exact (achieves_attributeOfUnbound kept sound fragment field).bind sound fun id e _ _ =>
      finish field.modifiers id e

theorem achieves_localVariable (fragment : Java.Fragment) (t : Java.TypeRef) :
    Achieves p (localVariable ctx fragment t) d fun _ _ => True := by
  refine (achieves_typeOfRef kept sound t).bind sound fun declared e _ sound there => .currentMethod ?_
  refine .change (.localVariable fragment.name e.scope.currentMethod declared) rfl
    ⟨fun _ x mem => ?_, fun _ => trivial, trivial⟩
  rcases List.mem_cons.mp mem with rfl | mem
  · exact there
  · exact holds_toList sound.sited.currentMethod_holds x mem

/-! Associations. -/

theorem achieves_invoke (binding : Option Java.MethodIndex) (signature : String) :
    Achieves p (invoke ctx binding signature) d fun _ _ => True := by
  have finish : ∀ candidate e, Sound p e → Present candidate e → Achieves p (do
      let sender ← currentMethod
      insert (Repository.insertInvocation sender [candidate] signature)) e fun _ _ => True := by
    refine fun candidate e sound there => .currentMethod ?_
    refine .change (.invocation e.scope.currentMethod candidate signature) rfl
      ⟨fun _ x mem => ?_, fun _ => trivial, trivial⟩
    rcases List.mem_cons.mp mem with rfl | mem
    · exact there
    · exact holds_toList sound.sited.currentMethod_holds x mem
  unfold invoke
  dsimp only
  split
  · exact (achieves_methodOfBinding sound kept _).bind sound fun candidate e _ => finish candidate e
  · exact (achieves_unresolvedMethod sound _).bind sound fun candidate e _ => finish candidate e

theorem achieves_invokeExpr (e : Java.Expr) : Achieves p (invokeExpr ctx e) d fun _ _ => True := by
  unfold invokeExpr
  split
  · exact .pure trivial
  · exact .map (achieves_invoke kept sound _ _)

theorem achieves_variableOfBinding (b : Java.VariableBinding) : Achieves p (variableOfBinding ctx b) d
    fun target e => ∀ v ∈ target, e.repository.Holds v.element := by
  unfold variableOfBinding
  split
  · refine (achieves_attributeOfBinding kept sound b).bind sound fun id e _ _ held => .pure fun v given => ?_
    cases given
    exact held
  · refine .get (.pure fun v given => ?_)
    obtain ⟨q, found, rfl⟩ := Option.map_eq_some_iff.mp given
    exact sound.sited.currentParameter_holds b.name q found
  · exact .pure nofun

omit kept in
theorem achieves_access {target : Option VariableRef} (there : ∀ v ∈ target, d.repository.Holds v.element) :
    Achieves p (access target) d fun _ _ => True := by
  refine .currentMethod (.change (.access d.scope.currentMethod target) rfl
    ⟨fun _ x mem => ?_, fun _ => trivial, trivial⟩)
  rcases List.mem_append.mp mem with mem | mem
  · exact holds_toList sound.sited.currentMethod_holds x mem
  · obtain ⟨v, listed, rfl⟩ := List.mem_map.mp mem
    exact there v (Option.mem_toList.mp listed)

theorem achieves_accessBinding (i : Java.VariableIndex) : Achieves p (accessBinding ctx i) d fun _ _ => True := by
  unfold accessBinding
  dsimp only
  split
  · exact (achieves_variableOfBinding kept sound _).bind sound fun _ _ _ sound there => achieves_access sound there
  · exact achieves_access sound nofun

theorem achieves_accessExpr (e : Java.Expr) : Achieves p (accessExpr ctx e) d fun _ _ => True := by
  unfold accessExpr
  split
  · exact .pure trivial
  · exact (achieves_variableOfBinding kept sound _).bind sound fun _ _ _ sound there =>
      (achieves_access sound there).bind sound fun _ _ _ _ _ => .pure trivial

theorem achieves_variableOfExpr (e : Java.Expr) : Achieves p (variableOfExpr ctx e) d
    fun target e => ∀ v ∈ target, e.repository.Holds v.element := by
  unfold variableOfExpr
  split
  · exact .pure nofun
  · exact achieves_variableOfBinding kept sound _

end Variables

end Draft

end Famix
