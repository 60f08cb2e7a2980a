import Famix.Proofs.Nesting
import Famix.Proofs.Procedure

/-!
What references to types leave intact. A property of drafts that survives each reference to a type, and each change
that neither makes a type nor links it or gives it another kind, survives all that is done for methods, fields,
variables and calls.
-/
namespace Famix

open Java (TypeIndex TypeExpr TypeRef MethodBinding MethodIndex MethodDecl InitializerDecl ParameterDecl VariableBinding
  Fragment FieldDecl Expr)

/-- Whether a change neither makes a type nor links one to another, nor gives one another kind. -/
def Change.Mild : Change → Prop
  | .type .. | .inheritance .. | .typeKind .. => False
  | _ => True

/-- Whether a reference, were it to go by what is written, goes by a name that is admitted. -/
def Java.TypeRef.Admitted (admits : String → Prop) (t : TypeRef) : Prop :=
  ∀ name ∈ t.written.recoveredName, admits name

namespace Draft

/-- The step leaves a property of drafts intact. -/
def Upholds (I : Draft → Prop) (f : Drafting α) : Prop := ∀ d, I d → I (f d).2

/-- A property that no mild change breaks, nor any reference to a type, if the names that are written are admitted. -/
structure Referable (ctx : Context) (admits : String → Prop) (I : Draft → Prop) : Prop where
  bound : ∀ i, Upholds I (typeOfBinding ctx i)
  written : ∀ name, admits name → Upholds I (unknownTypeNamed name)
  unknown : admits unknownName
  mild : ∀ (c : Change) d, c.Mild → I d → I (c.apply d)

variable {ctx : Context} {admits : String → Prop} {I : Draft → Prop}

section Unknown

variable (mild : ∀ (c : Change) d, c.Mild → I d → I (c.apply d)) {d : Draft}
include mild

theorem unknownNamespace_mild (h : I d) : I (unknownNamespace d).2 := by
  rw [unknownNamespace_eq]
  exact mild (.remember .space) _ trivial (mild (.space unknownName) d trivial h)

theorem unknownType_mild (h : I (unknownTypeNamed unknownName d).2) : I (unknownType d).2 := by
  rw [unknownType_eq]
  exact mild (.remember .type) _ trivial h

end Unknown

section Rules

theorem upholds_pure (a : α) : Upholds I (pure a) := fun _ h => h

theorem upholds_get : Upholds I (get : Drafting Draft) := fun _ h => h

theorem upholds_bind {x : Drafting α} {f : α → Drafting β} (hx : Upholds I x) (hf : ∀ a, Upholds I (f a)) :
    Upholds I (x >>= f) := fun d h => hf (x d).1 (x d).2 (hx d h)

theorem upholds_map {x : Drafting α} {f : α → β} (hx : Upholds I x) : Upholds I (f <$> x) := fun d h => hx d h

end Rules

variable (h : Referable ctx admits I)
include h

theorem upholds_change {f : Drafting α} (c : Draft → Change) (makes : ∀ d, (f d).2 = (c d).apply d)
    (mild : ∀ d, (c d).Mild) : Upholds I f := by
  intro d holds
  rw [makes d]
  exact h.mild (c d) d (mild d) holds

/-! Types. -/

theorem upholds_ensureNamespace (name : String) : Upholds I (ensureNamespace name) :=
  upholds_change h (fun _ => .space name) (fun _ => rfl) fun _ => trivial

theorem upholds_unknownNamespace : Upholds I unknownNamespace := fun _ => unknownNamespace_mild h.mild

theorem upholds_unknownType : Upholds I unknownType := fun d holds =>
  unknownType_mild h.mild (h.written unknownName h.unknown d holds)

theorem upholds_typeOfBinding? (i : Option TypeIndex) : Upholds I (typeOfBinding? ctx i) := by
  cases i with
  | none => exact upholds_unknownType h
  | some i => exact h.bound i

theorem upholds_typeOfRef {t : TypeRef} (admitted : t.Admitted admits) : Upholds I (typeOfRef ctx t) := by
  unfold typeOfRef
  cases resolved : ctx.bindings.resolveType t.binding t.written with
  | resolved i b => exact h.bound i
  | unresolved written =>
    obtain rfl : written = t.written := Java.BindingTable.resolveIn_hint resolved
    dsimp only [typeOfExpr]
    cases recovered : t.written.recoveredName with
    | some name => exact h.written name (admitted name recovered)
    | none => exact upholds_unknownType h

theorem upholds_ownerOrUnknown : Upholds I ownerOrUnknown := by
  refine upholds_bind upholds_get fun d => ?_
  split
  · exact upholds_pure _
  · exact upholds_unknownType h

theorem upholds_containerOrUnknown : Upholds I containerOrUnknown := by
  refine upholds_bind upholds_get fun d => ?_
  split
  · exact upholds_pure _
  · exact upholds_bind (upholds_unknownNamespace h) fun _ => upholds_pure _

/-! Methods. -/

omit h in
theorem upholds_memberKey (owner : TypeId) (name : String) : Upholds I (memberKey owner name) :=
  upholds_bind upholds_get fun _ => upholds_pure _

theorem upholds_internMethod (key name : String) (parent : TypeId) (signature : String) (isConstructor : Bool) :
    Upholds I (internMethod key (.stub name) parent signature (methodKind isConstructor)) :=
  upholds_change h (fun _ => .method key name parent signature isConstructor) (fun _ => rfl) fun _ => trivial

theorem upholds_unresolvedMethod (signature : String) : Upholds I (unresolvedMethod signature) :=
  upholds_bind (upholds_unknownType h) fun owner => upholds_bind (upholds_memberKey owner signature) fun key =>
    upholds_bind (upholds_internMethod h key _ owner signature false) fun _ => upholds_pure _

theorem upholds_returnedType (b : MethodBinding) : Upholds I (returnedType ctx b) := by
  unfold returnedType
  split
  · exact upholds_pure none
  · split
    · split
      · exact upholds_pure none
      · exact upholds_map (h.bound _)
    · exact upholds_pure none

theorem upholds_methodOfResolved (b : MethodBinding) (owner : TypeId) :
    Upholds I (methodOfResolved ctx b owner) := by
  refine upholds_bind (upholds_memberKey owner _) fun key => upholds_bind (upholds_internMethod h _ _ _ _ _) ?_
  intro ensured
  cases ensured with
  | existing id => exact upholds_pure id
  | created id =>
    refine upholds_bind (upholds_returnedType h b) fun declared => upholds_bind ?_ fun _ => upholds_pure id
    exact upholds_change h (fun _ => .methodBound id b.modifiers declared) (fun _ => rfl) fun _ => trivial

theorem upholds_methodOfBinding (i : MethodIndex) : Upholds I (methodOfBinding ctx i) := by
  unfold methodOfBinding
  split
  · exact upholds_unresolvedMethod h _
  · exact upholds_bind (upholds_typeOfBinding? h _) fun owner => upholds_methodOfResolved h _ owner

theorem upholds_methodOfUnboundDecl {decl : MethodDecl} (admitted : ∀ t ∈ decl.returnType, t.Admitted admits)
    (owner : TypeId) : Upholds I (methodOfUnboundDecl ctx decl owner) := by
  refine upholds_bind (upholds_memberKey owner _) fun key => upholds_bind (upholds_internMethod h _ _ _ _ _) ?_
  intro ensured
  cases ensured with
  | existing id => exact upholds_pure id
  | created id =>
    have finish : ∀ declared : Option TypeId, Upholds I (do
        modify (edit (·.updateMethod id fun m => { m with declaredType := declared }))
        return id) := fun declared =>
      upholds_bind (upholds_change h (fun _ => .methodTyped id declared) (fun _ => rfl) fun _ => trivial)
        fun _ => upholds_pure id
    dsimp only
    cases returned : decl.returnType with
    | none => exact finish none
    | some t =>
      dsimp only
      split
      · exact finish none
      · exact upholds_bind (upholds_map (upholds_typeOfRef h (admitted t returned))) finish

theorem upholds_methodOfDecl {decl : MethodDecl} (admitted : ∀ t ∈ decl.returnType, t.Admitted admits) :
    Upholds I (methodOfDecl ctx decl) := by
  have finish : ∀ id : MethodId, Upholds I (do
      modify (edit (·.updateMethod id fun m =>
        { m with toNamedEntity := m.toNamedEntity.declare decl.modifiers }))
      return id) := fun id =>
    upholds_bind (upholds_change h (fun _ => .methodDeclared id decl.modifiers) (fun _ => rfl) fun _ => trivial)
      fun _ => upholds_pure id
  refine upholds_bind (upholds_ownerOrUnknown h) fun owner => ?_
  dsimp only
  cases resolved : ctx.bindings.resolveMethod decl.binding decl with
  | resolved i b => exact upholds_bind (upholds_methodOfResolved h b owner) finish
  | unresolved hint =>
    obtain rfl : hint = decl := Java.BindingTable.resolveIn_hint resolved
    exact upholds_bind (upholds_methodOfUnboundDecl h admitted owner) finish

theorem upholds_initializerMethod (decl : InitializerDecl) : Upholds I (initializerMethod decl) :=
  upholds_bind (upholds_ownerOrUnknown h) fun owner =>
    upholds_change h (fun _ => .initializer owner _) (fun _ => rfl) fun _ => trivial

theorem upholds_parameterOfDecl {decl : ParameterDecl} (admitted : decl.type.Admitted admits) (method : MethodId) :
    Upholds I (parameterOfDecl ctx decl method) := by
  refine upholds_bind upholds_get fun d => ?_
  dsimp only
  split
  · exact upholds_pure _
  · exact upholds_bind (upholds_typeOfRef h admitted) fun declared =>
      upholds_change h (fun _ => .parameter _ decl.name method declared) (fun _ => rfl) fun _ => trivial

theorem upholds_declareParameters (method : MethodId) {parameters : List ParameterDecl}
    (admitted : ∀ q ∈ parameters, q.type.Admitted admits) :
    Upholds I (declareParameters ctx method parameters) := by
  induction parameters with
  | nil => exact upholds_pure _
  | cons q rest ih =>
    obtain ⟨own, others⟩ := List.forall_mem_cons.mp admitted
    exact upholds_bind (upholds_parameterOfDecl h own method) fun _ => ih others

theorem upholds_methodWithParameters {decl : MethodDecl} (returned : ∀ t ∈ decl.returnType, t.Admitted admits)
    (parameters : ∀ q ∈ decl.parameters, q.type.Admitted admits) : Upholds I (methodWithParameters ctx decl) :=
  upholds_bind (upholds_methodOfDecl h returned) fun id =>
    upholds_bind (upholds_declareParameters h id parameters) fun _ => upholds_pure id

/-! Variables. -/

theorem upholds_attributeWithin (b : VariableBinding) (parent : TypeId) :
    Upholds I (attributeWithin ctx b parent) := by
  refine upholds_bind (upholds_memberKey parent b.name) fun key => upholds_bind upholds_get fun d => ?_
  cases d.registry.attributes.get? key with
  | some id => exact upholds_pure id
  | none =>
    exact upholds_bind (upholds_typeOfBinding? h b.type) fun declared =>
      upholds_change h (fun _ => .field key b.name parent declared) (fun _ => rfl) fun _ => trivial

theorem upholds_attributeOfBinding (b : VariableBinding) : Upholds I (attributeOfBinding ctx b) := by
  rw [attributeOfBinding_eq]
  refine upholds_bind ?_ (upholds_attributeWithin h b)
  cases b.declaringClass with
  | some i => exact h.bound i
  | none => exact upholds_ownerOrUnknown h

theorem upholds_attributeOfUnbound (fragment : Fragment) {field : FieldDecl}
    (admitted : field.type.Admitted admits) : Upholds I (attributeOfUnbound ctx fragment field) := by
  refine upholds_bind (upholds_ownerOrUnknown h) fun parent => upholds_bind upholds_get fun d => ?_
  refine upholds_bind upholds_get fun e => ?_
  split
  · exact upholds_pure _
  · exact upholds_bind (upholds_typeOfRef h admitted) fun declared =>
      upholds_change h (fun _ => .field _ fragment.name parent declared) (fun _ => rfl) fun _ => trivial

theorem upholds_attributeOfFragment (fragment : Fragment) {field : FieldDecl}
    (admitted : field.type.Admitted admits) : Upholds I (attributeOfFragment ctx fragment field) := by
  have finish : ∀ (modifiers : List Modifier) (id : AttributeId), Upholds I (do
      modify (edit (·.updateAttribute id fun a =>
        { a with toNamedEntity := { a.toNamedEntity.enrich modifiers with isStub := true } }))
      return id) := fun modifiers id =>
    upholds_bind (upholds_change h (fun _ => .attributeDeclared id modifiers) (fun _ => rfl) fun _ => trivial)
      fun _ => upholds_pure id
  unfold attributeOfFragment
  dsimp only
  cases fieldBinding? ctx fragment with
  | some b => exact upholds_bind (upholds_attributeOfBinding h b) (finish b.modifiers)
  | none => exact upholds_bind (upholds_attributeOfUnbound h fragment admitted) (finish field.modifiers)

omit h in
theorem upholds_currentMethod : Upholds I currentMethod := upholds_bind upholds_get fun _ => upholds_pure _

theorem upholds_localVariable (fragment : Fragment) {t : TypeRef} (admitted : t.Admitted admits) :
    Upholds I (localVariable ctx fragment t) :=
  upholds_bind (upholds_typeOfRef h admitted) fun declared => upholds_bind upholds_currentMethod fun parent =>
    upholds_change h (fun _ => .localVariable fragment.name parent declared) (fun _ => rfl) fun _ => trivial

/-! Associations. -/

theorem upholds_invoke (binding : Option MethodIndex) (signature : String) :
    Upholds I (invoke ctx binding signature) := by
  have finish : ∀ candidate, Upholds I (do
      let sender ← currentMethod
      insert (Repository.insertInvocation sender [candidate] signature)) := fun candidate =>
    upholds_bind upholds_currentMethod fun sender =>
      upholds_change h (fun _ => .invocation sender candidate signature) (fun _ => rfl) fun _ => trivial
  unfold invoke
  dsimp only
  split
  · exact upholds_bind (upholds_methodOfBinding h _) finish
  · exact upholds_bind (upholds_unresolvedMethod h _) finish

theorem upholds_invokeExpr (e : Expr) : Upholds I (invokeExpr ctx e) := by
  unfold invokeExpr
  split
  · exact upholds_pure none
  · exact upholds_map (upholds_invoke h _ _)

theorem upholds_variableOfBinding (b : VariableBinding) : Upholds I (variableOfBinding ctx b) := by
  unfold variableOfBinding
  split
  · exact upholds_bind (upholds_attributeOfBinding h b) fun _ => upholds_pure _
  · exact upholds_bind upholds_get fun _ => upholds_pure _
  · exact upholds_pure none

theorem upholds_access (target : Option VariableRef) : Upholds I (access target) :=
  upholds_bind upholds_currentMethod fun accessor =>
    upholds_change h (fun _ => .access accessor target) (fun _ => rfl) fun _ => trivial

theorem upholds_accessBinding (i : Java.VariableIndex) : Upholds I (accessBinding ctx i) := by
  unfold accessBinding
  dsimp only
  split
  · exact upholds_bind (upholds_variableOfBinding h _) (upholds_access h)
  · exact upholds_bind (upholds_pure none) (upholds_access h)

theorem upholds_variableOfExpr (e : Expr) : Upholds I (variableOfExpr ctx e) := by
  unfold variableOfExpr
  split
  · exact upholds_pure none
  · exact upholds_variableOfBinding h _

theorem upholds_accessExpr (e : Expr) : Upholds I (accessExpr ctx e) := by
  unfold accessExpr
  split
  · exact upholds_pure none
  · exact upholds_bind (upholds_variableOfBinding h _) fun target =>
      upholds_bind (upholds_access h target) fun _ => upholds_pure _

theorem upholds_mention (e : Expr) (assigned : Bool) : Upholds I (mention ctx e assigned) := by
  refine upholds_bind (upholds_accessExpr h e) fun accessed => ?_
  cases accessed with
  | none => exact upholds_pure _
  | some id =>
    cases assigned with
    | false => exact upholds_pure _
    | true =>
      exact upholds_bind (upholds_change h (fun _ => .written id) (fun _ => rfl) fun _ => trivial) fun _ =>
        upholds_pure _

end Draft

end Famix
