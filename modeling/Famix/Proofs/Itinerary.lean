import Famix.Proofs.Visit

/-!
A visit leads where a history leads. The act on a mark comes to the same as a few operations, and these fit: what they
open, and any method that is given a parameter, has just been found or made.
-/
namespace Famix

open Java (ParameterDecl Project)
open Draft (Present Sound)

namespace Operation

theorem admissible_append {p : Promises} {ctx : Context} {history more : List Operation} {d : Draft} :
    Admissible p ctx (history ++ more) d ↔
      Admissible p ctx history d ∧ Admissible p ctx more (applyAll ctx history d) := by
  induction history generalizing d with
  | nil => simp [Admissible]
  | cons op rest ih =>
    rw [List.cons_append, applyAll_cons]
    simp only [Admissible, ih, and_assoc]

theorem applyAll_parameters (ctx : Context) (method : MethodId) (parameters : List ParameterDecl) (d : Draft) :
    applyAll ctx (parameters.map (.parameterOfDecl · method)) d =
      (Draft.declareParameters ctx method parameters d).2 := by
  induction parameters generalizing d with
  | nil => rfl
  | cons q rest ih => exact ih (Draft.parameterOfDecl ctx q method d).2

theorem admissible_parameters {p : Promises} {ctx : Context} {d : Draft} (kept : ctx.Keeps p) (sound : Sound p d)
    {method : MethodId} (there : Present method d) (parameters : List ParameterDecl) :
    Admissible p ctx (parameters.map (.parameterOfDecl · method)) d := by
  induction parameters generalizing d with
  | nil => trivial
  | cons q rest ih =>
    have walk := (Draft.achieves_parameterOfDecl kept sound q there).walk
    exact ⟨there, ih (walk.sound sound) (walk.keeps.holds there)⟩

end Operation

theorem Draft.accessExpr_present {ctx : Context} {e : Java.Expr} {d : Draft} {id : AccessId}
    (made : (accessExpr ctx e d).1 = some id) : Present id (accessExpr ctx e d).2 := by
  cases bound : namedBinding? ctx e with
  | none => rw [accessExpr_of_none ctx bound] at made; cases made
  | some b =>
    rw [accessExpr_of_some ctx bound] at made ⊢
    cases made
    exact Nat.lt_of_lt_of_eq (Nat.lt_succ_self _) (Array.size_push _).symm

namespace Mark

open Operation (applyAll Admissible applyAll_append)

variable {p : Promises} {ctx : Context} {d : Draft}

/-- Operations that lead where the act on a mark leads. -/
def operations (ctx : Context) (d : Draft) : Mark → List Operation
  | .package name => [.ensureNamespace name, .enter (.ns (Draft.ensureNamespace name d).1)]
  | .type decl => [.typeOfDecl decl, .enter (.type (Draft.typeOfDecl ctx decl d).1)]
  | .anonymous a t => [.typeOfAnonymous a t, .enter (.type (Draft.typeOfAnonymous ctx a t d).1)]
  | .method decl =>
    let id := (Draft.methodOfDecl ctx decl d).1
    .methodOfDecl decl :: (decl.parameters.map (.parameterOfDecl · id) ++ [.enter (.method id)])
  | .initializer decl => [.initializerMethod decl, .enter (.method (Draft.initializerMethod decl d).1)]
  | .close => [.leave]
  | .field fragment decl => [.attributeOfFragment fragment decl]
  | .localVariable fragment t => [.localVariable fragment t]
  | .call e => [.invokeExpr e]
  | .mention identifier binding assigned =>
    let target := (Draft.accessExpr ctx (.name identifier binding) d).1
    .accessExpr (.name identifier binding) :: (if assigned then target.toList.map .markWrite else [])

theorem applyAll_operations (m : Mark) (d : Draft) : applyAll ctx (m.operations ctx d) d = m.act ctx d := by
  cases m with
  | package | type | anonymous | initializer | field | localVariable | call => rfl
  | close =>
    change (Draft.leave d).2 = _
    rw [Draft.leave_snd]
    rfl
  | method decl =>
    dsimp only [operations]
    rw [Operation.applyAll_cons, applyAll_append, Operation.applyAll_parameters]
    rfl
  | mention identifier binding assigned =>
    cases assigned with
    | false => exact (Draft.mention_read ctx _ d).symm
    | true =>
      change applyAll ctx (Option.toList _ |>.map .markWrite) (Draft.accessExpr ctx _ d).2 =
        (Draft.mention ctx _ true d).2
      cases bound : Draft.namedBinding? ctx (.name identifier binding) with
      | none =>
        rw [Draft.mention_of_none ctx bound, Draft.accessExpr_of_none ctx bound]
        rfl
      | some b =>
        have made := congrArg Prod.fst (Draft.accessExpr_of_some ctx bound d)
        rw [Draft.mention_write ctx made, made]
        rfl

theorem admissible_operations (kept : ctx.Keeps p) (sound : Sound p d) {m : Mark} (fits : m.Fits p) :
    Admissible p ctx (m.operations ctx d) d := by
  cases m with
  | package name => exact ⟨trivial, (Draft.achieves_ensureNamespace sound name).post, trivial⟩
  | type decl => exact ⟨fits, (Draft.achieves_typeOfDecl kept sound fits).post, trivial⟩
  | anonymous a t => exact ⟨trivial, (Draft.achieves_typeOfAnonymous kept sound a t).post, trivial⟩
  | method decl =>
    have made := Draft.achieves_methodOfDecl sound kept decl
    have sound := made.walk.sound sound
    refine ⟨trivial, Operation.admissible_append.mpr ⟨?_, ?_, trivial⟩⟩
    · exact Operation.admissible_parameters kept sound made.post decl.parameters
    · have declared := Draft.achieves_declareParameters kept sound made.post decl.parameters
      rw [Operation.applyAll_parameters]
      exact declared.walk.keeps.holds made.post
  | initializer decl => exact ⟨trivial, (Draft.achieves_initializerMethod sound decl).post, trivial⟩
  | close | field | localVariable | call => exact ⟨trivial, trivial⟩
  | mention identifier binding assigned =>
    refine ⟨trivial, ?_⟩
    cases assigned with
    | false => trivial
    | true =>
      cases made : (Draft.accessExpr ctx (.name identifier binding) d).1 with
      | none => trivial
      | some id => exact ⟨fun _ => Draft.accessExpr_present made, trivial⟩

/-- The operations that lead where the acts on some marks lead. -/
def history (ctx : Context) : List Mark → Draft → List Operation
  | [], _ => []
  | m :: rest, d => m.operations ctx d ++ history ctx rest (m.act ctx d)

theorem applyAll_history (marks : List Mark) (d : Draft) :
    applyAll ctx (history ctx marks d) d = actAll ctx marks d := by
  induction marks generalizing d with
  | nil => rfl
  | cons m rest ih => rw [history, applyAll_append, applyAll_operations, ih, actAll_cons]

theorem admissible_history (kept : ctx.Keeps p) (marks : List Mark) (fits : ∀ m ∈ marks, m.Fits p) (sound : Sound p d) :
    Admissible p ctx (history ctx marks d) d := by
  induction marks generalizing d with
  | nil => trivial
  | cons m rest ih =>
    obtain ⟨own, others⟩ := List.forall_mem_cons.mp fits
    refine Operation.admissible_append.mpr ⟨admissible_operations kept sound own, ?_⟩
    rw [applyAll_operations]
    exact ih others (sound_act kept sound own)

end Mark

/-- A visit of source files leads where a history leads whose operations fit. -/
theorem buildModel_history {p : Promises} (unnamed : ¬ p.named) (project : Project) (keying : AttributeKeying) :
    ∃ history, Operation.Admissible p { bindings := project.bindings, keying } history {} ∧
      (Operation.applyAll { bindings := project.bindings, keying } history {}).repository =
        buildModel project keying := by
  have fits : ∀ m ∈ readUnits project.units, m.Fits p := by
    rintro m -
    cases m with
    | type decl => exact fun promised => absurd promised unnamed
    | _ => trivial
  have kept : Context.Keeps { bindings := project.bindings, keying } p := fun promised => absurd promised unnamed
  exact ⟨_, Mark.admissible_history kept _ fits (Operation.sound_empty p), by
    rw [Mark.applyAll_history, buildModel_reads]⟩

end Famix
