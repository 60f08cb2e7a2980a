import Famix.Proofs.Nesting
import Famix.Proofs.Population

/-!
A visit is a walk. Acted on in a sound draft, a mark makes only proper changes, and what it opens is there; so
whatever proper changes keep holds of every model that is built from source files.
-/
namespace Famix

open Java (Expr ParameterDecl MethodDecl Project)

namespace Draft

variable {p : Promises} {d : Draft} {ctx : Context} (kept : ctx.Keeps p) (sound : Sound p d)
include kept sound

theorem achieves_declareParameters {method : MethodId} (there : Present method d) (parameters : List ParameterDecl) :
    Achieves p (declareParameters ctx method parameters) d fun _ _ => True := by
  induction parameters generalizing d with
  | nil => exact .pure trivial
  | cons q rest ih =>
    exact (achieves_parameterOfDecl kept sound q there).bind sound fun _ _ walk sound _ =>
      ih sound (walk.keeps.holds there)

theorem achieves_methodWithParameters (decl : MethodDecl) :
    Achieves p (methodWithParameters ctx decl) d Present :=
  (achieves_methodOfDecl sound kept decl).bind sound fun _ _ _ sound there =>
    (achieves_declareParameters kept sound there decl.parameters).bind sound fun _ _ walk _ _ =>
      .pure (walk.keeps.holds there)

theorem achieves_mention (e : Expr) (assigned : Bool) : Achieves p (mention ctx e assigned) d fun _ _ => True := by
  refine (achieves_accessExpr kept sound e).bind sound fun id e _ _ _ => ?_
  cases id with
  | none => exact .pure trivial
  | some id =>
    cases assigned with
    | false => exact .pure trivial
    | true => exact .change (.written id) rfl ⟨nofun, fun _ => trivial, trivial⟩

end Draft

theorem Context.keeps_links (ctx : Context) : ctx.Keeps .links := fun promised => promised.elim

namespace Mark

open Draft (Achieves Sound Walk)

/-- A mark is as promised. -/
def Fits (p : Promises) : Mark → Prop
  | .type decl => p.named → decl.name ≠ ""
  | _ => True

instance (m : Mark) : Decidable (m.Fits .names) := by
  cases m with
  | type decl => exact inferInstanceAs (Decidable (True → decl.name ≠ ""))
  | _ => exact .isTrue trivial

variable {p : Promises} {d : Draft} {ctx : Context}

theorem achieves_prepare (kept : ctx.Keeps p) (sound : Sound p d) {m : Mark} (fits : m.Fits p) :
    Achieves p (m.prepare ctx) d fun opened e => ∀ c ∈ opened, e.repository.Holds c.element := by
  have one : ∀ {c : Container} {e : Draft}, e.repository.Holds c.element →
      ∀ x ∈ some c, e.repository.Holds x.element := by
    rintro c e there x given
    cases given
    exact there
  have none : ∀ e : Draft, ∀ x ∈ (none : Option Container), e.repository.Holds x.element := by simp
  cases m with
  | package name =>
    exact (Draft.achieves_ensureNamespace sound name).bind sound fun id _ _ _ there => .pure (one (c := .ns id) there)
  | type decl =>
    exact (Draft.achieves_typeOfDecl kept sound fits).bind sound fun id _ _ _ there => .pure (one (c := .type id) there)
  | anonymous a t =>
    exact (Draft.achieves_typeOfAnonymous kept sound a t).bind sound fun id _ _ _ there =>
      .pure (one (c := .type id) there)
  | method decl =>
    exact (Draft.achieves_methodWithParameters kept sound decl).bind sound fun id _ _ _ there =>
      .pure (one (c := .method id) there)
  | initializer decl =>
    exact (Draft.achieves_initializerMethod sound decl).bind sound fun id _ _ _ there =>
      .pure (one (c := .method id) there)
  | close => exact .pure (none d)
  | field fragment decl =>
    exact (Draft.achieves_attributeOfFragment kept sound fragment decl).bind sound fun _ e _ _ _ => .pure (none e)
  | localVariable fragment t =>
    exact (Draft.achieves_localVariable kept sound fragment t).bind sound fun _ e _ _ _ => .pure (none e)
  | call e => exact (Draft.achieves_invokeExpr kept sound e).bind sound fun _ e _ _ _ => .pure (none e)
  | mention identifier binding assigned =>
    exact (Draft.achieves_mention kept sound _ assigned).bind sound fun _ e _ _ _ => .pure (none e)

theorem mem_nest {m : Mark} {opened : Option Container} {frames : List Container} {c : Container}
    (mem : c ∈ m.nest opened frames) : c ∈ opened ∨ c ∈ frames := by
  unfold nest at mem
  split at mem
  · rcases List.mem_cons.mp mem with rfl | mem
    · exact .inl rfl
    · exact .inr mem
  · exact .inr (List.mem_of_mem_tail mem)
  · exact .inr mem

theorem sound_act (kept : ctx.Keeps p) (sound : Sound p d) {m : Mark} (fits : m.Fits p) : Sound p (m.act ctx d) := by
  obtain ⟨walk, opened⟩ := achieves_prepare kept sound fits
  have prepared := walk.sound sound
  refine prepared.rescope fun c mem => ?_
  rcases mem_nest mem with new | old
  · exact opened c new
  · exact prepared.sited.opened c old

/-- What proper changes to the repository keep is kept by acting on marks. -/
theorem actAll_invariant (kept : ctx.Keeps p) {P : Repository → Prop}
    (keep : ∀ (c : Change) (d : Draft), Sound p d → c.Proper p d → P d.repository → P (c.apply d).repository)
    (marks : List Mark) (fits : ∀ m ∈ marks, m.Fits p) (sound : Sound p d) (holds : P d.repository) :
    Sound p (actAll ctx marks d) ∧ P (actAll ctx marks d).repository := by
  induction marks generalizing d with
  | nil => exact ⟨sound, holds⟩
  | cons m rest ih =>
    obtain ⟨own, others⟩ := List.forall_mem_cons.mp fits
    have walk := (achieves_prepare kept sound own).walk
    have acted : P (m.act ctx d).repository := walk.invariant (P := fun e => P e.repository) sound holds keep
    exact ih others (sound_act kept sound own) acted

theorem fits_links (m : Mark) : m.Fits .links := by
  cases m with
  | type decl => exact False.elim
  | _ => trivial

theorem sound_actAll (ctx : Context) (marks : List Mark) : Sound .links (actAll ctx marks {}) := by
  exact (actAll_invariant (P := fun _ => True) ctx.keeps_links (fun _ _ _ _ => id) marks (fun m _ => m.fits_links)
    (Operation.sound_empty .links) trivial).1

end Mark

/-- The model of a project has what proper changes keep, whatever the project. -/
theorem buildModel_invariant {P : Repository → Prop} (empty : P {})
    (keep : ∀ (c : Change) (d : Draft), Draft.Sound .links d → c.Proper .links d → P d.repository →
      P (c.apply d).repository)
    (project : Project) (keying : AttributeKeying) : P (buildModel project keying) := by
  rw [buildModel_reads]
  exact (Mark.actAll_invariant (Context.keeps_links _) keep _ (fun m _ => m.fits_links) (Operation.sound_empty .links)
    empty).2

end Famix
