import Famix.Proofs.Agreement
import Famix.Proofs.Itinerary

/-!
The containers that are open during a visit. A visit leaves open what was open before it, and closes only what it has
opened itself; above that there is at most one namespace, then types and methods, each method directly above a type. All
of them are there, also when the visit begins in a scope with containers that are not. This is so at every call that a
visitor makes: the same visitor is run with a record of its calls, and each is recorded with the draft it is made in.
-/
namespace Famix

open Java (Expr Fragment Statement AnonymousClass FieldDecl Member TypeDecl TypeRef MethodDecl InitializerDecl
  ParameterDecl CompilationUnit)

namespace Draft

variable {d : Draft}

theorem Path.holds {kinds : Change → Prop} {e : Draft} {x : Element} (path : Path kinds d e)
    (there : d.repository.Holds x) : e.repository.Holds x :=
  Nat.lt_of_lt_of_le there (path.before x.kind)

theorem Path.agree {kinds : Change → Prop} {e : Draft} (path : Path kinds d e)
    (agree : d.registry.Matches d.repository) : e.registry.Matches e.repository :=
  path.invariant (P := fun d => d.registry.Matches d.repository) agree fun c _ _ h => h.change c

/-- What a step answers is there after it, if the registry agreed with the repository before. -/
def Finds (f : Drafting α) (element : α → Element) : Prop :=
  ∀ d : Draft, d.registry.Matches d.repository → (f d).2.repository.Holds (element (f d).1)

section Finding

variable {kinds : Change → Prop} {element : α → Element} {same : β → Element}

theorem Finds.after {x : Drafting β} {f : β → Drafting α} (builds : BuildsOnly kinds x)
    (finds : ∀ b, Finds (f b) element) : Finds (x >>= f) element := by
  intro d agree
  exact finds (x d).1 (x d).2 ((builds.path d).agree agree)

theorem Finds.get {f : Draft → Drafting α} (finds : ∀ d, Finds (f d) element) : Finds (get >>= f) element :=
  fun d agree => finds d d agree

/-- What is found stays found while more is changed. -/
theorem Finds.before {x : Drafting α} {f : α → Drafting β} (finds : Finds x element)
    (path : ∀ a d, Path (fun _ => True) d (f a d).2) (answer : ∀ a d, same (f a d).1 = element a) :
    Finds (x >>= f) same := by
  intro d agree
  have kept := (path (x d).1 (x d).2).holds (finds d agree)
  rw [← answer (x d).1 (x d).2] at kept
  exact kept

theorem finds_ensureNamespace (name : String) : Finds (ensureNamespace name) (·.element) := by
  intro d agree
  have after := ((builds_ensureNamespace name).path d).agree agree
  exact after.namespaces.leads _ _ (ensureNamespace_registers name d)

theorem finds_internType (key name : String) (c : Container) (kind : TypeKind) :
    Finds (internType key name c kind) (·.id.element) := by
  intro d agree
  have after := ((builds_internType key name c kind).path d).agree agree
  exact after.types.leads _ _ (internType_registers key name c kind d)

theorem finds_internMethod (key name signature : String) (parent : TypeId) (isConstructor : Bool) :
    Finds (internMethod key (.stub name) parent signature (methodKind isConstructor)) (·.id.element) := by
  intro d agree
  have path : Path (fun _ => True) d (internMethod key (.stub name) parent signature (methodKind isConstructor) d).2 :=
    .single (.method key name parent signature isConstructor) trivial
  obtain ⟨m, known, -⟩ := (path.agree agree).methods.leads _ _ (internMethod_registers key _ parent signature _ d)
  exact Repository.holds_method known

variable (ctx : Context)

theorem finds_typeOfBinding (i : Java.TypeIndex) : Finds (typeOfBinding ctx i) (·.element) := by
  intro d agree
  have run := resolveIndex_runs ctx.bindings i d
  exact (run.path.agree agree).types.leads _ _ run.registers

theorem finds_typeOfUnboundDecl (decl : TypeDecl) : Finds (typeOfUnboundDecl ctx decl) (·.element) := by
  refine .after builds_containerOrUnknown fun c => .get fun d => ?_
  refine (finds_internType _ _ _ _).before (fun ensured d => ?_) fun ensured d => ?_
  · cases ensured with
    | existing id => exact .refl
    | created id => exact (builds_inheritRefs ctx id _).any.path d
  · cases ensured <;> rfl

theorem finds_typeOfDecl (decl : TypeDecl) : Finds (typeOfDecl ctx decl) (·.element) := by
  have declared : ∀ (id : TypeId) (d : Draft),
      Path (fun _ => True) d ((do editType id (·.declare decl.modifiers); return id : Drafting TypeId) d).2 :=
    fun id _ => .single (.typeDeclared id decl.modifiers) trivial
  unfold typeOfDecl
  split
  · exact (finds_typeOfBinding ctx _).before declared fun _ _ => rfl
  · exact (finds_typeOfUnboundDecl ctx _).before declared fun _ _ => rfl

theorem finds_typeOfAnonymous (a : AnonymousClass) (t : TypeRef) : Finds (typeOfAnonymous ctx a t) (·.element) := by
  refine .after builds_anonymousContainer fun c => .get fun d => ?_
  refine (finds_internType _ _ _ _).before (fun ensured d => ?_) fun ensured d => ?_
  · cases ensured with
    | existing id => exact .refl
    | created id => exact (Path.single (.typeOpened id) trivial).trans ((builds_inheritRef ctx id t).any.path _)
  · cases ensured <;> rfl

theorem finds_methodOfResolved (b : Java.MethodBinding) (owner : TypeId) :
    Finds (methodOfResolved ctx b owner) (·.element) := by
  refine .after (builds_memberKey owner _) fun key => ?_
  refine (finds_internMethod _ _ _ _ _).before (fun ensured d => ?_) fun ensured d => ?_
  · cases ensured with
    | existing id => exact .refl
    | created id =>
      exact ((builds_returnedType ctx b).any.path d).step (.methodBound id b.modifiers (returnedType ctx b d).1) trivial
  · cases ensured <;> rfl

theorem finds_methodOfUnboundDecl (decl : MethodDecl) (owner : TypeId) :
    Finds (methodOfUnboundDecl ctx decl owner) (·.element) := by
  refine .after (builds_memberKey owner _) fun key => ?_
  refine (finds_internMethod _ _ _ _ _).before (fun ensured d => ?_) fun ensured d => ?_
  · cases ensured with
    | existing id => exact .refl
    | created id =>
      dsimp only
      cases decl.returnType with
      | none => exact .single (.methodTyped id none) trivial
      | some t =>
        dsimp only
        split
        · exact .single (.methodTyped id none) trivial
        · exact ((builds_typeOfRef ctx t).any.path d).step (.methodTyped id (some (typeOfRef ctx t d).1)) trivial
  · cases ensured with
    | existing id => rfl
    | created id =>
      dsimp only
      cases decl.returnType with
      | none => rfl
      | some t =>
        dsimp only
        split <;> rfl

theorem finds_methodOfDecl (decl : MethodDecl) : Finds (methodOfDecl ctx decl) (·.element) := by
  have declared : ∀ (id : MethodId) (d : Draft), Path (fun _ => True) d ((do
      modify (edit (·.updateMethod id fun m =>
        { m with toNamedEntity := m.toNamedEntity.declare decl.modifiers }))
      return id : Drafting MethodId) d).2 :=
    fun id _ => .single (.methodDeclared id decl.modifiers) trivial
  refine .after builds_ownerOrUnknown fun owner => ?_
  dsimp only
  split
  · exact (finds_methodOfResolved ctx _ owner).before declared fun _ _ => rfl
  · exact (finds_methodOfUnboundDecl ctx _ owner).before declared fun _ _ => rfl

theorem finds_initializerMethod (decl : InitializerDecl) : Finds (initializerMethod decl) (·.element) := by
  refine .after builds_ownerOrUnknown fun owner d _ => ?_
  exact Nat.lt_of_lt_of_eq (Nat.lt_succ_self _) (Array.size_push _).symm

end Finding

end Draft

namespace Operation

/-- Whether an operation changes which containers are open. -/
def moves : Operation → Bool
  | .enter _ | .leave => true
  | _ => false

theorem apply_scope (ctx : Context) {op : Operation} (still : op.moves = false) (d : Draft) :
    (op.apply ctx d).scope = d.scope := by
  cases op with
  | enter | leave => cases still
  | currentMethod | ownerType | currentParameter | markWrite => rfl
  | ensureNamespace => exact (Draft.builds_ensureNamespace _).scope d
  | unknownNamespace => exact Draft.builds_unknownNamespace.scope d
  | unknownType => exact Draft.builds_unknownType.scope d
  | typeOfBinding => exact (Draft.builds_typeOfBinding ctx _).scope d
  | typeOfRef => exact (Draft.builds_typeOfRef ctx _).scope d
  | typeOfExpr => exact (Draft.builds_typeOfExpr _).scope d
  | typeOfDecl => exact (Draft.builds_typeOfDecl ctx _).scope d
  | typeOfAnonymous => exact (Draft.builds_typeOfAnonymous ctx _ _).scope d
  | methodOfBinding => exact (Draft.builds_methodOfBinding ctx _).scope d
  | methodOfDecl => exact (Draft.builds_methodOfDecl ctx _).scope d
  | initializerMethod => exact (Draft.builds_initializerMethod _).scope d
  | unresolvedMethod => exact (Draft.builds_unresolvedMethod _).scope d
  | parameterOfDecl => exact (Draft.builds_parameterOfDecl ctx _ _).scope d
  | attributeOfFragment => exact (Draft.builds_attributeOfFragment ctx _ _).scope d
  | attributeOfBinding => exact (Draft.builds_attributeOfBinding ctx _).scope d
  | localVariable => exact (Draft.builds_localVariable ctx _ _).scope d
  | inherit => exact (Draft.builds_inherit _ _).scope d
  | inheritBinding => exact (Draft.builds_inheritBinding ctx _ _).scope d
  | inheritRef => exact (Draft.builds_inheritRef ctx _ _).scope d
  | invoke => exact (Draft.builds_invoke ctx _ _).scope d
  | invokeExpr => exact (Draft.builds_invokeExpr ctx _).scope d
  | accessBinding => exact (Draft.builds_accessBinding ctx _).scope d
  | accessExpr => exact (Draft.builds_accessExpr ctx _).scope d
  | variableOfExpr => exact (Draft.builds_variableOfExpr ctx _).scope d

theorem apply_holds (ctx : Context) (op : Operation) {d : Draft} {x : Element} (there : d.repository.Holds x) :
    (op.apply ctx d).repository.Holds x := by
  obtain ⟨e, path, same⟩ := op.path ctx d
  rw [same]
  exact path.holds there

theorem apply_agree (ctx : Context) (op : Operation) {d : Draft} (agree : d.registry.Matches d.repository) :
    (op.apply ctx d).registry.Matches (op.apply ctx d).repository := by
  obtain ⟨e, path, same⟩ := op.path ctx d
  rw [same]
  exact path.agree agree

theorem applyAll_agree (ctx : Context) (ops : List Operation) {d : Draft} (agree : d.registry.Matches d.repository) :
    (applyAll ctx ops d).registry.Matches (applyAll ctx ops d).repository := by
  induction ops generalizing d with
  | nil => exact agree
  | cons op rest ih => exact ih (op.apply_agree ctx agree)

/-- Something holds whenever an operation of a history is performed. -/
def AtEvery (ctx : Context) (P : Operation → Draft → Prop) : List Operation → Draft → Prop
  | [], _ => True
  | op :: rest, d => P op d ∧ AtEvery ctx P rest (op.apply ctx d)

/-- Something holds when some operation of a history is performed. -/
def AtSome (ctx : Context) (P : Operation → Draft → Prop) : List Operation → Draft → Prop
  | [], _ => False
  | op :: rest, d => P op d ∨ AtSome ctx P rest (op.apply ctx d)

end Operation

/-- Types and methods above a ground, the innermost first: a method stands directly above a type. -/
inductive Stacked (ground : List Container) : List Container → Prop where
  | ground : Stacked ground ground
  | type {frames : List Container} (id : TypeId) (outer : Stacked ground frames) : Stacked ground (.type id :: frames)
  | method {frames : List Container} (id : MethodId) {owner : TypeId} (outer : Stacked ground (.type owner :: frames)) :
      Stacked ground (.method id :: .type owner :: frames)

/-- In `d` the containers `opened` are open above those of `base`, and they are there. -/
structure Above (base ground opened : List Container) (d : Draft) : Prop where
  frames : d.scope.frames = opened ++ base
  stacked : Stacked ground opened
  there : ∀ c ∈ opened, d.repository.Holds c.element

/-- Whatever is open above `base` is of a shape and there, and it is not `base` that the operation leaves. -/
def Framed (base : List Container) (shape : List Container → Prop) (op : Operation) (d : Draft) : Prop :=
  ∃ opened, d.scope.frames = opened ++ base ∧ shape opened ∧ (∀ c ∈ opened, d.repository.Holds c.element) ∧
    (op = .leave → opened ≠ [])

theorem Framed.mono {base : List Container} {shape wider : List Container → Prop} {op : Operation} {d : Draft}
    (h : Framed base shape op d) (imp : ∀ opened, shape opened → wider opened) : Framed base wider op d := by
  obtain ⟨opened, frames, shaped, rest⟩ := h
  exact ⟨opened, frames, imp opened shaped, rest⟩

namespace Above

variable {base ground floor opened : List Container} {d : Draft}

theorem framed {op : Operation} (above : Above base ground opened d) (inside : op = .leave → opened ≠ []) :
    Framed base (Stacked ground) op d := ⟨opened, above.frames, above.stacked, above.there, inside⟩

theorem apply (ctx : Context) {op : Operation} (above : Above base ground opened d) (still : op.moves = false) :
    Above base ground opened (op.apply ctx d) :=
  ⟨by rw [op.apply_scope ctx still, above.frames], above.stacked, fun c mem => op.apply_holds ctx (above.there c mem)⟩

theorem enter {c : Container} (above : Above base ground opened d) (there : d.repository.Holds c.element)
    (stacked : Stacked floor (c :: opened)) : Above base floor (c :: opened) (Draft.enter c d).2 where
  frames := congrArg (c :: ·) above.frames
  stacked := stacked
  there := List.forall_mem_cons.mpr ⟨there, above.there⟩

theorem leave {c : Container} (above : Above base floor (c :: opened) d) (stacked : Stacked ground opened) :
    Above base ground opened (Draft.leave d).2 := by
  rw [Draft.leave_snd]
  exact ⟨by rw [above.frames]; rfl, stacked, fun x mem => above.there x (List.mem_cons_of_mem c mem)⟩

end Above

theorem Mark.actAll_agree (ctx : Context) (marks : List Mark) {d : Draft} (agree : d.registry.Matches d.repository) :
    (actAll ctx marks d).registry.Matches (actAll ctx marks d).repository := by
  rw [← applyAll_history]
  exact Operation.applyAll_agree ctx _ agree

/-! Visits of which a record is kept. -/

/-- Calls in the order in which they are made, each with the draft in which it is made. -/
abbrev Record := List (Operation × Draft)

/-- A construction that keeps a record of its calls. -/
abbrev Recording := StateT Record Drafting

theorem Call.step_snd {ctx : Context} (c : Call ctx α) (d : Draft) : (c.step d).2 = c.op.apply ctx d := by
  rw [Operation.apply, c.performs]
  rfl

/-- Makes a call and records it. -/
def Call.recorded {ctx : Context} (c : Call ctx α) : Recording α := fun record d =>
  let (a, e) := c.step d
  ((a, record ++ [(c.op, d)]), e)

namespace Record

variable {ctx : Context} {calls more : Record} {d e f : Draft}

/-- The first call is made in `d`, every other in what the one before it leads to, and the last leads to `e`. -/
def Connects (ctx : Context) (d : Draft) : Record → Draft → Prop
  | [], e => e = d
  | (op, before) :: rest, e => before = d ∧ Connects ctx (op.apply ctx d) rest e

theorem Connects.append (h : Connects ctx d calls e) (k : Connects ctx e more f) :
    Connects ctx d (calls ++ more) f := by
  induction calls generalizing d with
  | nil => exact h ▸ k
  | cons call rest ih => exact ⟨h.1, ih h.2⟩

theorem Connects.agree (h : Connects ctx d calls e) (agree : d.registry.Matches d.repository) :
    e.registry.Matches e.repository := by
  induction calls generalizing d with
  | nil => exact h ▸ agree
  | cons call rest ih => exact ih h.2 (call.1.apply_agree ctx agree)

theorem Connects.holds (h : Connects ctx d calls e) {x : Element} (there : d.repository.Holds x) :
    e.repository.Holds x := by
  induction calls generalizing d with
  | nil => exact h ▸ there
  | cons call rest ih => exact ih h.2 (call.1.apply_holds ctx there)

end Record

/-- Begun in a draft of which `pre` holds, the recording `x` does what the step `f` does, `during` holds at every call
that it makes and adds to the record, and `post` in the end. -/
def Records (ctx : Context) (during : Operation → Draft → Prop) (pre : Draft → Prop) (x : Recording α) (f : Drafting α)
    (post : α → Draft → Prop) : Prop :=
  ∀ d, pre d → d.registry.Matches d.repository → post (f d).1 (f d).2 ∧ ∃ calls : Record,
    calls.Connects ctx d (f d).2 ∧ (∀ call ∈ calls, during call.1 call.2) ∧
      ∀ record, x record d = (((f d).1, record ++ calls), (f d).2)

namespace Records

variable {ctx : Context} {during wider : Operation → Draft → Prop} {pre : Draft → Prop} {mid : α → Draft → Prop}
  {post : β → Draft → Prop} {x : Recording α} {y : α → Recording β} {f : Drafting α} {g : α → Drafting β}

theorem pure (a : α) (holds : ∀ d, pre d → mid a d) : Records ctx during pre (pure a) (pure a) mid := by
  intro d given _
  refine ⟨holds d given, [], rfl, List.forall_mem_nil _, fun record => ?_⟩
  rw [List.append_nil]
  rfl

theorem call (c : Call ctx α) (now : ∀ d, pre d → during c.op d)
    (after : ∀ d, pre d → d.registry.Matches d.repository → mid (c.step d).1 (c.step d).2) :
    Records ctx during pre c.recorded c.step mid := by
  intro d given agree
  refine ⟨after d given agree, [(c.op, d)], ⟨rfl, c.step_snd d⟩, fun call mem => ?_, fun record => rfl⟩
  cases List.mem_singleton.mp mem
  exact now d given

theorem bind (first : Records ctx during pre x f mid) (rest : ∀ a, Records ctx during (mid a) (y a) (g a) post) :
    Records ctx during pre (x >>= y) (f >>= g) post := by
  intro d given agree
  obtain ⟨middle, calls, leads, each, recorded⟩ := first d given agree
  obtain ⟨last, more, onwards, others, finished⟩ := rest (f d).1 (f d).2 middle (leads.agree agree)
  refine ⟨last, calls ++ more, leads.append onwards, fun call mem => ?_, fun record => ?_⟩
  · exact (List.mem_append.mp mem).elim (each call) (others call)
  · change y (x record d).1.1 (x record d).1.2 (x record d).2 = _
    rw [recorded record, ← List.append_assoc]
    exact finished (record ++ calls)

/-- What the precondition says of no draft in particular may be assumed. -/
theorem assume {P : Prop} (given : ∀ d, pre d → P) (h : P → Records ctx during pre x f mid) :
    Records ctx during pre x f mid := fun d before => h (given d before) d before

theorem mono (h : Records ctx during pre x f mid) (imp : ∀ op d, during op d → wider op d) :
    Records ctx wider pre x f mid := by
  intro d given agree
  obtain ⟨last, calls, leads, each, recorded⟩ := h d given agree
  exact ⟨last, calls, leads, fun call mem => imp _ _ (each call mem), recorded⟩

end Records

/-- A visit that opens and closes above what is open, and leaves that open. -/
def Visits (ctx : Context) (base ground opened : List Container) (x : Recording Unit) (f : Drafting Unit) : Prop :=
  Records ctx (Framed base (Stacked ground)) (Above base ground opened) x f fun _ => Above base ground opened

namespace Visits

variable {ctx : Context} {base ground floor opened : List Container} {x y body : Recording Unit}
  {f g run : Drafting Unit}

theorem done : Visits ctx base ground opened (pure ()) (pure ()) := .pure () fun _ above => above

theorem call (c : Call ctx α) (still : c.op.moves = false) :
    Records ctx (Framed base (Stacked ground)) (Above base ground opened) c.recorded c.step fun _ =>
      Above base ground opened := by
  refine .call c (fun d above => above.framed ?_) fun d above _ => ?_
  · intro leaves
    rw [leaves] at still
    cases still
  · rw [c.step_snd]
    exact above.apply ctx still

/-- A call that gives a container, which then is there. -/
theorem find (c : Call ctx α) (container : α → Container) (still : c.op.moves = false)
    (finds : Draft.Finds c.step fun a => (container a).element) :
    Records ctx (Framed base (Stacked ground)) (Above base ground opened) c.recorded c.step fun a d =>
      Above base ground opened d ∧ d.repository.Holds (container a).element := by
  intro d above agree
  obtain ⟨after, rest⟩ := call c still d above agree
  exact ⟨⟨after, finds d agree⟩, rest⟩

theorem seq (first : Visits ctx base ground opened x f) (rest : Visits ctx base ground opened y g) :
    Visits ctx base ground opened (do x; y) (do f; g) := first.bind fun _ => rest

theorem after (c : Call ctx α) (still : c.op.moves = false) (rest : Visits ctx base ground opened y g) :
    Visits ctx base ground opened (do let _ ← c.recorded; y) (do let _ ← c.step; g) := (call c still).bind fun _ => rest

/-- A container that is there is opened, visited and closed. -/
theorem enclose {shape : List Container → Prop} {c : Container} (outer : Stacked ground opened)
    (stacked : Stacked floor (c :: opened)) (inner : Visits ctx base floor (c :: opened) body run)
    (outside : ∀ frames, Stacked ground frames → shape frames)
    (inside : ∀ frames, Stacked floor frames → shape frames) :
    Records ctx (Framed base shape) (fun d => Above base ground opened d ∧ d.repository.Holds c.element)
      (Visitor.inside ctx Call.recorded c body) (Visitor.inside ctx Call.step c run)
      fun _ => Above base ground opened := by
  have entered : Records ctx (Framed base shape) (fun d => Above base ground opened d ∧ d.repository.Holds c.element)
      (Call.enter c).recorded (Call.enter c).step fun _ => Above base floor (c :: opened) :=
    .call _ (fun d above => (above.1.framed fun leaves : Operation.enter c = .leave => nomatch leaves).mono outside)
      fun d above _ => above.1.enter above.2 stacked
  have left : Records ctx (Framed base shape) (Above base floor (c :: opened)) Call.leave.recorded Call.leave.step
      fun _ => Above base ground opened :=
    .call _ (fun d above => (above.framed fun _ => List.cons_ne_nil c opened).mono inside)
      fun d above _ => above.leave outer
  exact entered.bind fun _ => (inner.mono fun _ _ h => h.mono inside).bind fun _ => left.bind fun _ =>
    .pure () fun _ above => above

/-- A container that may stand on what is open. -/
theorem nest {c : Container} (stacked : Stacked ground opened → Stacked ground (c :: opened))
    (inner : Visits ctx base ground (c :: opened) body run) :
    Records ctx (Framed base (Stacked ground)) (fun d => Above base ground opened d ∧ d.repository.Holds c.element)
      (Visitor.inside ctx Call.recorded c body) (Visitor.inside ctx Call.step c run)
      fun _ => Above base ground opened :=
  .assume (fun _ given => given.1.stacked) fun outer =>
    enclose outer (stacked outer) inner (fun _ h => h) fun _ h => h

/-- What is there stays there during a visit. -/
theorem holding (h : Visits ctx base ground opened x f) (e : Element) :
    Records ctx (Framed base (Stacked ground)) (fun d => Above base ground opened d ∧ d.repository.Holds e) x f
      fun _ d => Above base ground opened d ∧ d.repository.Holds e := by
  intro d given agree
  obtain ⟨after, calls, connects, rest⟩ := h d given.1 agree
  exact ⟨⟨after, connects.holds given.2⟩, calls, connects, rest⟩

end Visits

section Visitor

open Visitor

variable (ctx : Context) {base ground : List Container}

theorem visits_declareParameters (method : MethodId) (parameters : List ParameterDecl) (opened : List Container) :
    Visits ctx base ground opened (declareParameters ctx Call.recorded method parameters)
      (declareParameters ctx Call.step method parameters) := by
  induction parameters with
  | nil => exact .done
  | cons p rest ih => exact .after _ rfl ih

mutual
theorem visits_expr (e : Expr) (opened : List Container) :
    Visits ctx base ground opened (visitExpr ctx Call.recorded e) (visitExpr ctx Call.step e) := by
  cases e with
  | name identifier binding =>
    simp only [visitExpr]
    exact .after _ rfl .done
  | assignment target value =>
    simp only [visitExpr]
    refine (Visits.call _ rfl).bind fun access => ?_
    cases access with
    | some id => exact Visits.after _ rfl (visits_expr value opened)
    | none => exact (visits_expr target opened).seq (visits_expr value opened)
  | invocation receiver name arguments binding =>
    simp only [visitExpr]
    exact .after _ rfl ((visits_option receiver opened).seq (visits_exprs arguments opened))
  | creation type arguments binding anonymous =>
    simp only [visitExpr]
    exact .after _ rfl ((visits_exprs arguments opened).seq (visits_anonymous type anonymous opened))
  | literal | other =>
    simp only [visitExpr]
    exact .done

theorem visits_option (e : Option Expr) (opened : List Container) :
    Visits ctx base ground opened (visitOption ctx Call.recorded e) (visitOption ctx Call.step e) := by
  cases e with
  | none =>
    simp only [visitOption]
    exact .done
  | some e =>
    simp only [visitOption]
    exact visits_expr e opened

theorem visits_exprs (es : List Expr) (opened : List Container) :
    Visits ctx base ground opened (visitExprs ctx Call.recorded es) (visitExprs ctx Call.step es) := by
  cases es with
  | nil =>
    simp only [visitExprs]
    exact .done
  | cons e rest =>
    simp only [visitExprs]
    exact (visits_expr e opened).seq (visits_exprs rest opened)

theorem visits_anonymous (type : TypeRef) (a : Option AnonymousClass) (opened : List Container) :
    Visits ctx base ground opened (visitAnonymous ctx Call.recorded type a) (visitAnonymous ctx Call.step type a) := by
  cases a with
  | none =>
    simp only [visitAnonymous]
    exact .done
  | some a =>
    obtain ⟨binding, body⟩ := a
    simp only [visitAnonymous]
    exact (Visits.find _ .type rfl (Draft.finds_typeOfAnonymous ctx ⟨binding, body⟩ type)).bind fun id =>
      Visits.nest (.type id) (visits_members body id opened)

theorem visits_statement (s : Statement) (opened : List Container) :
    Visits ctx base ground opened (visitStatement ctx Call.recorded s) (visitStatement ctx Call.step s) := by
  cases s with
  | localVariable type fragments =>
    simp only [visitStatement]
    exact visits_locals type fragments opened
  | expression e =>
    simp only [visitStatement]
    exact visits_expr e opened
  | returned value =>
    simp only [visitStatement]
    exact visits_option value opened
  | block statements =>
    simp only [visitStatement]
    exact visits_statements statements opened

theorem visits_statements (ss : List Statement) (opened : List Container) :
    Visits ctx base ground opened (visitStatements ctx Call.recorded ss) (visitStatements ctx Call.step ss) := by
  cases ss with
  | nil =>
    simp only [visitStatements]
    exact .done
  | cons s rest =>
    simp only [visitStatements]
    exact (visits_statement s opened).seq (visits_statements rest opened)

theorem visits_locals (type : TypeRef) (fragments : List Fragment) (opened : List Container) :
    Visits ctx base ground opened (visitLocals ctx Call.recorded type fragments)
      (visitLocals ctx Call.step type fragments) := by
  cases fragments with
  | nil =>
    simp only [visitLocals]
    exact .done
  | cons fragment rest =>
    obtain ⟨name, binding, initial⟩ := fragment
    simp only [visitLocals]
    exact .after _ rfl ((visits_option initial opened).seq (visits_locals type rest opened))

theorem visits_fields (field : FieldDecl) (fragments : List Fragment) (opened : List Container) :
    Visits ctx base ground opened (visitFields ctx Call.recorded field fragments)
      (visitFields ctx Call.step field fragments) := by
  cases fragments with
  | nil =>
    simp only [visitFields]
    exact .done
  | cons fragment rest =>
    obtain ⟨name, binding, initial⟩ := fragment
    simp only [visitFields]
    exact .after _ rfl ((visits_option initial opened).seq (visits_fields field rest opened))

/-- Members of a type are visited directly above it, as methods are to be; a type may be visited anywhere. -/
theorem visits_member (m : Member) (opened : List Container)
    (site : (∃ decl, m = .type decl) ∨ ∃ owner rest, opened = .type owner :: rest) :
    Visits ctx base ground opened (visitMember ctx Call.recorded m) (visitMember ctx Call.step m) := by
  cases m with
  | field decl =>
    obtain ⟨type, modifiers, fragments⟩ := decl
    simp only [visitMember]
    exact visits_fields _ fragments opened
  | method decl =>
    obtain ⟨name, binding, isConstructor, returnType, parameters, modifiers, body⟩ := decl
    obtain ⟨decl, same⟩ | ⟨owner, rest, rfl⟩ := site
    · cases same
    · simp only [visitMember]
      exact (Visits.find _ .method rfl (Draft.finds_methodOfDecl ctx _)).bind fun id =>
        ((visits_declareParameters ctx id parameters _).holding (Container.method id).element).bind fun _ =>
          Visits.nest (.method id) (visits_statements body _)
  | initializer decl =>
    obtain ⟨isStatic, body⟩ := decl
    obtain ⟨decl, same⟩ | ⟨owner, rest, rfl⟩ := site
    · cases same
    · simp only [visitMember]
      exact (Visits.find _ .method rfl (Draft.finds_initializerMethod ⟨isStatic, body⟩)).bind fun id =>
        Visits.nest (.method id) (visits_statements body _)
  | type decl =>
    obtain ⟨name, kind, binding, modifiers, superclass, interfaces, body⟩ := decl
    simp only [visitMember]
    exact (Visits.find _ .type rfl (Draft.finds_typeOfDecl ctx _)).bind fun id =>
      Visits.nest (.type id) (visits_members body id opened)

theorem visits_members (ms : List Member) (owner : TypeId) (opened : List Container) :
    Visits ctx base ground (.type owner :: opened) (visitMembers ctx Call.recorded ms)
      (visitMembers ctx Call.step ms) := by
  cases ms with
  | nil =>
    simp only [visitMembers]
    exact .done
  | cons m rest =>
    simp only [visitMembers]
    exact (visits_member m _ (.inr ⟨owner, opened, rfl⟩)).seq (visits_members rest owner opened)
end

theorem visits_types (types : List TypeDecl) (opened : List Container) :
    Visits ctx base ground opened (visitTypes ctx Call.recorded types) (visitTypes ctx Call.step types) := by
  induction types with
  | nil => exact .done
  | cons t rest ih => exact (visits_member ctx (.type t) opened (.inl ⟨t, rfl⟩)).seq ih

/-- At most one namespace, and types and methods above it. -/
def Spaced (opened : List Container) : Prop := Stacked [] opened ∨ ∃ id : NamespaceId, Stacked [.ns id] opened

theorem records_unit (unit : CompilationUnit) :
    Records ctx (Framed base Spaced) (Above base [] []) (visitUnit ctx Call.recorded unit)
      (visitUnit ctx Call.step unit) fun _ => Above base [] [] := by
  unfold visitUnit
  cases unit.package with
  | none => exact (visits_types ctx unit.types []).mono fun _ _ h => h.mono fun _ => .inl
  | some name =>
    have found : Records ctx (Framed base (Stacked [])) (Above base [] []) (Call.ensureNamespace name).recorded
        (Call.ensureNamespace name).step fun id d =>
          Above base [] [] d ∧ d.repository.Holds (Container.ns id).element :=
      Visits.find _ .ns rfl (Draft.finds_ensureNamespace name)
    refine (found.mono fun _ _ h => h.mono fun _ => .inl).bind fun id => ?_
    exact Visits.enclose .ground .ground (visits_types ctx unit.types [.ns id]) (fun _ => .inl) fun _ stacked =>
      .inr ⟨id, stacked⟩

end Visitor

namespace Draft

open Operation (applyAll)

/-- A visit leaves the scope as it was, and at every call that it makes the containers it has opened are of a shape. It
is visited with a record of the calls; the record is complete, and keeping it changes nothing. -/
structure Disciplined (ctx : Context)
    (visit : {m : Type → Type} → [Monad m] → ({α : Type} → Call ctx α → m α) → m Unit) (shape : List Container → Prop)
    (d : Draft) : Prop where
  recorded : (visit Call.recorded [] d).2 = (visit Call.step d).2
  complete : (visit Call.recorded [] d).1.2.Connects ctx d (visit Call.step d).2
  balanced : (visit Call.step d).2.scope = d.scope
  framed : ∀ call ∈ (visit Call.recorded [] d).1.2, Framed d.scope.frames shape call.1 call.2

theorem Disciplined.of_records {ctx : Context}
    {visit : {m : Type → Type} → [Monad m] → ({α : Type} → Call ctx α → m α) → m Unit} {shape : List Container → Prop}
    {d : Draft} (agree : d.registry.Matches d.repository)
    (records : Records ctx (Framed d.scope.frames shape) (Above d.scope.frames [] []) (visit Call.recorded)
      (visit Call.step) fun _ => Above d.scope.frames [] []) : Disciplined ctx visit shape d := by
  have start : Above d.scope.frames [] [] d := ⟨rfl, .ground, nofun⟩
  obtain ⟨after, calls, connects, framed, recorded⟩ := records d start agree
  have whole := recorded []
  rw [List.nil_append] at whole
  refine ⟨by rw [whole], ?_, congrArg Scope.mk after.frames, ?_⟩
  · rw [whole]
    exact connects
  · rw [whole]
    exact framed

/-- Whatever the draft and whatever is open in it, a visit of a source file or of a type closes what it opens and
nothing else, and at no call has more open than a namespace and types and methods that are there. -/
theorem visit_scopes (before ctx : Context) (past : List Operation) :
    (∀ unit, Disciplined ctx (fun call => Visitor.visitUnit ctx call unit) Spaced (applyAll before past {})) ∧
      ∀ decl, Disciplined ctx (fun call => Visitor.visitType ctx call decl) (Stacked []) (applyAll before past {}) := by
  have agree : (applyAll before past {}).registry.Matches (applyAll before past {}).repository :=
    Operation.applyAll_agree before past .empty
  exact ⟨fun unit => .of_records agree (records_unit ctx unit), fun decl =>
    .of_records agree (visits_member ctx (.type decl) [] (.inl ⟨decl, rfl⟩))⟩

end Draft

end Famix
