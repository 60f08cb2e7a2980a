import Famix.Proofs.Procedure

/-!
Histories whose operations fit. Every draft that such a history leads to is sound, and if the names in the table
are consistent, the keys of its registry are the qualified names of what is registered.
-/
namespace Famix

/-- What is promised where keys are to be names. -/
def Promises.names : Promises := ⟨True, False⟩

/-- Nothing is promised but that what is opened is there, and any method that is given a parameter. -/
def Promises.bare : Promises := ⟨False, False⟩

theorem Promises.bare_keeps (ctx : Context) : ctx.Keeps .bare := False.elim

namespace Operation

open Draft (Present Sound Walk Achieves)

/-- What an operation is given is there, as far as it is promised. -/
def Fits (p : Promises) (d : Draft) : Operation → Prop
  | .enter c => d.repository.Holds c.element
  | .parameterOfDecl _ method => Present method d
  | .typeOfDecl decl => p.named → decl.name ≠ ""
  | .inherit subclass superclass => p.linked → Present subclass d ∧ Present superclass d
  | .inheritBinding subclass _ | .inheritRef subclass _ => p.linked → Present subclass d
  | .markWrite id => p.linked → Present id d
  | _ => True

/-- Every operation of a history fits the draft in which it is performed. -/
def Admissible (p : Promises) (ctx : Context) : List Operation → Draft → Prop
  | [], _ => True
  | op :: rest, d => op.Fits p d ∧ Admissible p ctx rest (op.apply ctx d)

theorem Fits.bare {p : Promises} {d : Draft} {op : Operation} (h : op.Fits p d) : op.Fits .bare d := by
  cases op with
  | enter | parameterOfDecl => exact h
  | typeOfDecl | inherit | inheritBinding | inheritRef | markWrite => exact False.elim
  | _ => trivial

theorem Admissible.bare {p : Promises} {ctx : Context} {history : List Operation} {d : Draft}
    (h : Admissible p ctx history d) : Admissible .bare ctx history d := by
  induction history generalizing d with
  | nil => trivial
  | cons op rest ih => exact ⟨h.1.bare, ih h.2⟩

/-- An operation that fits is a walk, after which the innermost container may be another that is there. -/
theorem walk {p : Promises} {ctx : Context} {d : Draft} {op : Operation} (kept : ctx.Keeps p) (sound : Sound p d)
    (fits : op.Fits p d) : ∃ e, Walk p d e ∧ op.apply ctx d = { e with scope := (op.apply ctx d).scope } ∧
      ∀ c ∈ (op.apply ctx d).scope.frames, e.repository.Holds c.element := by
  have unmoved : ∀ e, Walk p d e → op.apply ctx d = e → ∃ e, Walk p d e ∧
      op.apply ctx d = { e with scope := (op.apply ctx d).scope } ∧
        ∀ c ∈ (op.apply ctx d).scope.frames, e.repository.Holds c.element := by
    intro e walk same
    rw [same]
    exact ⟨e, walk, rfl, (walk.sound sound).sited.opened⟩
  have achieved : ∀ {α : Type} {f : Drafting α} {post : α → Draft → Prop} (g : α → Answer),
      Achieves p f d post → (op.perform ctx = do return g (← f)) → ∃ e, Walk p d e ∧
        op.apply ctx d = { e with scope := (op.apply ctx d).scope } ∧
          ∀ c ∈ (op.apply ctx d).scope.frames, e.repository.Holds c.element := by
    intro α f post g achieves performs
    exact unmoved (f d).2 achieves.walk (by unfold apply; rw [performs]; rfl)
  cases op with
  | enter c =>
    refine ⟨d, .refl, rfl, fun x mem => ?_⟩
    rcases List.mem_cons.mp mem with rfl | mem
    · exact fits
    · exact sound.sited.opened x mem
  | leave =>
    refine ⟨d, .refl, rfl, fun x mem => sound.sited.opened x ?_⟩
    change x ∈ (d.scope.pop).2.frames at mem
    unfold Scope.pop at mem
    split at mem
    · exact mem
    · next frames => rw [frames]; exact List.mem_cons_of_mem _ mem
  | markWrite id => exact unmoved _ (.single (.written id) ⟨nofun, fun _ => trivial, trivial⟩) rfl
  | currentMethod | ownerType | currentParameter => exact unmoved d .refl rfl
  | ensureNamespace name => exact achieved _ (Draft.achieves_ensureNamespace sound name) rfl
  | unknownNamespace => exact achieved _ (Draft.achieves_unknownNamespace sound) rfl
  | unknownType => exact achieved _ (Draft.achieves_unknownType sound) rfl
  | typeOfBinding i => exact achieved _ (Draft.achieves_typeOfBinding kept sound i) rfl
  | typeOfRef t => exact achieved _ (Draft.achieves_typeOfRef kept sound t) rfl
  | typeOfExpr t => exact achieved _ (Draft.achieves_typeOfExpr sound t) rfl
  | typeOfDecl decl => exact achieved _ (Draft.achieves_typeOfDecl kept sound fits) rfl
  | typeOfAnonymous anonymous t => exact achieved _ (Draft.achieves_typeOfAnonymous kept sound anonymous t) rfl
  | methodOfBinding i => exact achieved _ (Draft.achieves_methodOfBinding sound kept i) rfl
  | methodOfDecl decl => exact achieved _ (Draft.achieves_methodOfDecl sound kept decl) rfl
  | initializerMethod decl => exact achieved _ (Draft.achieves_initializerMethod sound decl) rfl
  | unresolvedMethod signature => exact achieved _ (Draft.achieves_unresolvedMethod sound signature) rfl
  | parameterOfDecl decl method => exact achieved _ (Draft.achieves_parameterOfDecl kept sound decl fits) rfl
  | attributeOfFragment fragment field =>
    exact achieved _ (Draft.achieves_attributeOfFragment kept sound fragment field) rfl
  | attributeOfBinding b => exact achieved _ (Draft.achieves_attributeOfBinding kept sound b) rfl
  | localVariable fragment t => exact achieved _ (Draft.achieves_localVariable kept sound fragment t) rfl
  | inherit subclass superclass => exact achieved _ (Draft.achieves_inherit fits) rfl
  | inheritBinding subclass i => exact achieved _ (Draft.achieves_inheritBinding kept sound fits i) rfl
  | inheritRef subclass t => exact achieved _ (Draft.achieves_inheritRef kept sound fits t) rfl
  | invoke binding signature => exact achieved _ (Draft.achieves_invoke kept sound binding signature) rfl
  | invokeExpr e => exact achieved _ (Draft.achieves_invokeExpr kept sound e) rfl
  | accessBinding i => exact achieved _ (Draft.achieves_accessBinding kept sound i) rfl
  | accessExpr e => exact achieved _ (Draft.achieves_accessExpr kept sound e) rfl
  | variableOfExpr e => exact achieved _ (Draft.achieves_variableOfExpr kept sound e) rfl

theorem sound_apply {p : Promises} {ctx : Context} {d : Draft} {op : Operation} (kept : ctx.Keeps p)
    (sound : Sound p d) (fits : op.Fits p d) : Sound p (op.apply ctx d) := by
  obtain ⟨e, walked, same, opened⟩ := walk kept sound fits
  rw [same]
  exact (walked.sound sound).rescope opened

theorem sound_applyAll {p : Promises} {ctx : Context} (kept : ctx.Keeps p) (history : List Operation) {d : Draft}
    (sound : Sound p d) (fits : Admissible p ctx history d) : Sound p (applyAll ctx history d) := by
  induction history generalizing d with
  | nil => exact sound
  | cons op rest ih => exact ih (sound_apply kept sound fits.1) fits.2

/-- What proper changes to the repository keep is kept by every admissible history. -/
theorem applyAll_keeps {p : Promises} {ctx : Context} {P : Repository → Prop} (kept : ctx.Keeps p)
    (keep : ∀ (c : Change) (d : Draft), Sound p d → c.Proper p d → P d.repository → P (c.apply d).repository)
    (history : List Operation) {d : Draft} (sound : Sound p d) (fits : Admissible p ctx history d)
    (holds : P d.repository) : P (applyAll ctx history d).repository := by
  induction history generalizing d with
  | nil => exact holds
  | cons op rest ih =>
    obtain ⟨e, walked, same, -⟩ := walk kept sound fits.1
    refine ih (sound_apply kept sound fits.1) fits.2 ?_
    change P (op.apply ctx d).repository
    rw [same]
    exact walked.invariant (P := fun e => P e.repository) sound holds keep

theorem sound_empty (p : Promises) : Sound p {} := by
  have absent : ∀ c : Container, ¬ ({} : Repository).Holds c.element := by
    intro c there
    cases c <;> exact absurd there (Nat.not_lt_zero _)
  exact ⟨⟨fun c there => absurd there (absent c), nofun, ⟨nofun, nofun, nofun, nofun, nofun⟩, nofun⟩, fun _ =>
    ⟨⟨nofun, nofun⟩, fun id there => absurd there (Nat.not_lt_zero _), ⟨nofun, nofun, nofun, nofun, nofun⟩⟩,
    fun _ _ _ => rfl⟩

end Operation

def Interner.Distinguishes (name : ElementId kind → String) (t : Interner kind) : Prop :=
  ∀ key other id found, t.get? key = some id → t.get? other = some found → name id = name found → id = found

structure Registry.Distinguishes (r : Repository) (g : Registry) : Prop where
  namespaces : g.namespaces.Distinguishes r.namespaceName
  types : g.types.Distinguishes r.typeName
  methods : g.methods.Distinguishes r.methodName
  attributes : g.attributes.Distinguishes r.attributeName
  parameters : g.parameters.Distinguishes r.parameterName

theorem Interner.Names.distinguishes {t : Interner kind} {name : ElementId kind → String} (h : t.Names name) :
    t.Distinguishes name := by
  intro key other id found known known' same
  have keys : key = other := (h key id known).symm.trans (same.trans (h other found known'))
  subst keys
  exact Option.some.inj (known.symm.trans known')

theorem Registry.Names.distinguishes {r : Repository} {g : Registry} (h : g.Names r) : g.Distinguishes r :=
  ⟨h.namespaces.distinguishes, h.types.distinguishes, h.methods.distinguishes, h.attributes.distinguishes,
    h.parameters.distinguishes⟩

namespace Operation

/-- Where the names in the table are consistent and every field is filed under its own name, each key that an
admissible history registers is the qualified name of its element, and so no two registered elements of a kind have
the same name. -/
theorem keys_are_names (ctx : Context) (consistent : NamesConsistent ctx.bindings) (keyed : ctx.keying = .keyed)
    (history : List Operation) (fits : Admissible .names ctx history {}) :
    (applyAll ctx history {}).registry.Names (applyAll ctx history {}).repository ∧
      (applyAll ctx history {}).registry.Distinguishes (applyAll ctx history {}).repository := by
  have sound := sound_applyAll (fun _ => ⟨consistent, keyed⟩) history (sound_empty .names) fits
  have names := (sound.named trivial).keys
  exact ⟨names, names.distinguishes⟩

/-- A class, a member class with a missing supertype, and an interface that has no package. -/
def sampleTable : Java.BindingTable where
  types := [.inPackage "p" "A",
    { qualifiedName := "p.A.B", name := "B", package := some "p", declaringClass := some 0, superclass := some 0,
      interfaces := [2, 7] },
    { qualifiedName := "I", name := "I", isInterface := true }]

theorem sampleTable_consistent : NamesConsistent sampleTable := by decide +kernel

/-- A declared class with a method, its parameter and a class inside it, then a member class from the table and a
field. -/
def sampleHistory : List Operation :=
  [.ensureNamespace "q", .enter (.ns ⟨0⟩),
    .typeOfDecl ⟨"C", .classType, none, [], none, [], []⟩, .enter (.type ⟨0⟩),
    .methodOfDecl ⟨"m", none, false, none, [], [], []⟩, .enter (.method ⟨0⟩),
    .parameterOfDecl { name := "x", type := { written := .simple "X" } } ⟨0⟩,
    .typeOfAnonymous ⟨none, []⟩ { written := .simple "C" },
    .typeOfBinding 1,
    .attributeOfFragment ⟨"f", none, none⟩ ⟨{ written := .simple "X", binding := some 2 }, [], []⟩]

theorem sampleHistory_admissible : Admissible .names { bindings := sampleTable } sampleHistory {} := by
  refine ⟨trivial, ?_, fun _ => by decide, ?_, trivial, ?_, ?_, trivial, trivial, trivial, trivial⟩
  all_goals
    change 0 < _
    decide +kernel

theorem keys_are_names_sample :
    NamesConsistent sampleTable ∧ Admissible .names { bindings := sampleTable } sampleHistory {} ∧
      (applyAll { bindings := sampleTable } sampleHistory {}).registry.Names
        (applyAll { bindings := sampleTable } sampleHistory {}).repository ∧
      (applyAll { bindings := sampleTable } sampleHistory {}).registry.Distinguishes
        (applyAll { bindings := sampleTable } sampleHistory {}).repository :=
  ⟨sampleTable_consistent, sampleHistory_admissible,
    keys_are_names { bindings := sampleTable } sampleTable_consistent rfl sampleHistory sampleHistory_admissible⟩

end Operation

end Famix
