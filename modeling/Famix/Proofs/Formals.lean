import Famix.Proofs.Convergence
import Famix.Proofs.Mirror
import Famix.Proofs.Titles

/-!
Formal parameters and the names that reach them. The parameters of a method are those of its declarations, each filed
under the name of the method and its own, and a name that is bound to a parameter reaches the one that is so called in
the method that is open.
-/
namespace Famix

open Java (MethodDecl ParameterDecl InitializerDecl TypeDecl AnonymousClass TypeRef Fragment FieldDecl Expr
  VariableBinding Project)

/-- Whether a change leaves the parameters and the accesses as they are. -/
def Change.Spares : Change → Prop
  | .parameter .. | .access .. | .written _ => False
  | _ => True

theorem Change.Refers.spares {c : Change} (h : c.Refers) : c.Spares := by
  cases c <;> first | exact h.elim | trivial

theorem Repository.Numbered.getElem? {store : Array α} {id : α → ElementId kind} (h : Numbered store id) {a : α}
    (listed : a ∈ store.toList) : store[(id a).index]? = some a := by
  obtain ⟨i, known⟩ := Array.mem_iff_getElem?.mp (Array.mem_toList_iff.mp listed)
  rw [h i a known]
  exact known

namespace Draft

structure SameVariables (d e : Draft) : Prop where
  parameters : e.repository.parameters = d.repository.parameters
  accesses : e.repository.accesses = d.repository.accesses

theorem SameVariables.refl (d : Draft) : SameVariables d d := ⟨rfl, rfl⟩

theorem SameVariables.change {base d : Draft} {c : Change} (h : SameVariables base d) (spares : c.Spares) :
    SameVariables base (c.apply d) := by
  have result := c.result d
  generalize c.apply d = e at result ⊢
  cases result with
  | known => exact h
  | space | type | method | field => exact ⟨h.parameters, h.accesses⟩
  | parameter => exact spares.elim
  | direct c direct =>
    cases c with
    | space | type | method | field | parameter => cases direct
    | access | written => exact spares.elim
    | _ => exact ⟨h.parameters, h.accesses⟩

/-! Only the declaration of a method adds parameters, and only the mention of a name adds accesses. -/

section Spared

variable {base : Draft}

theorem spared_change {f : Drafting α} (c : Draft → Change) (makes : ∀ d, (f d).2 = (c d).apply d)
    (spares : ∀ d, (c d).Spares) : Upholds (SameVariables base) f := by
  intro d same
  rw [makes d]
  exact same.change (spares d)

theorem spared_refers {f : Drafting α} (builds : BuildsOnly Change.Refers f) : Upholds (SameVariables base) f :=
  fun d same => (builds.path d).invariant same fun _ _ refers same => same.change refers.spares

variable (ctx : Context)

theorem spared_typeOfDecl (decl : TypeDecl) : Upholds (SameVariables base) (typeOfDecl ctx decl) := by
  have finish : ∀ id : TypeId, Upholds (SameVariables base) (do editType id (·.declare decl.modifiers); return id) :=
    fun id => upholds_bind (spared_change (fun _ => .typeDeclared id decl.modifiers) (fun _ => rfl) fun _ => trivial)
      fun _ => upholds_pure id
  unfold typeOfDecl
  split
  · exact upholds_bind (spared_refers (builds_typeOfBinding ctx _)) finish
  · exact upholds_bind (spared_refers (builds_typeOfUnboundDecl ctx _)) finish

theorem spared_typeOfAnonymous (a : AnonymousClass) (t : TypeRef) :
    Upholds (SameVariables base) (typeOfAnonymous ctx a t) := by
  refine upholds_bind (spared_refers builds_anonymousContainer) fun c => upholds_bind upholds_get fun d => ?_
  refine upholds_bind (spared_refers (builds_internType _ _ c _)) fun ensured => ?_
  cases ensured with
  | existing id => exact upholds_pure id
  | created id =>
    refine upholds_bind (spared_change (fun _ => .typeOpened id) (fun _ => rfl) fun _ => trivial) fun _ => ?_
    exact upholds_bind (spared_refers (builds_inheritRef ctx id t)) fun _ => upholds_pure id

theorem spared_methodOfUnboundDecl (decl : MethodDecl) (owner : TypeId) :
    Upholds (SameVariables base) (methodOfUnboundDecl ctx decl owner) := by
  refine upholds_bind (spared_refers (builds_memberKey owner _)) fun key => upholds_bind ?_ fun ensured => ?_
  · exact spared_change (fun _ => .method key decl.name owner _ decl.isConstructor) (fun _ => rfl) fun _ => trivial
  · cases ensured with
    | existing id => exact upholds_pure id
    | created id =>
      have finish : ∀ declared : Option TypeId, Upholds (SameVariables base) (do
          modify (edit (·.updateMethod id fun m => { m with declaredType := declared }))
          return id) := fun declared =>
        upholds_bind (spared_change (fun _ => .methodTyped id declared) (fun _ => rfl) fun _ => trivial)
          fun _ => upholds_pure id
      dsimp only
      cases decl.returnType with
      | none => exact finish none
      | some t =>
        dsimp only
        split
        · exact finish none
        · exact upholds_bind (upholds_map (spared_refers (builds_typeOfRef ctx t))) finish

theorem spared_methodOfDecl (decl : MethodDecl) : Upholds (SameVariables base) (methodOfDecl ctx decl) := by
  rw [methodOfDecl_eq]
  refine upholds_bind (spared_refers builds_ownerOrUnknown) fun owner => upholds_bind ?_ fun id => ?_
  · unfold methodWithin
    split
    · exact spared_refers (builds_methodOfResolved ctx _ owner)
    · exact spared_methodOfUnboundDecl ctx _ owner
  · exact upholds_bind (spared_change (fun _ => .methodDeclared id decl.modifiers) (fun _ => rfl) fun _ => trivial)
      fun _ => upholds_pure id

theorem spared_initializerMethod (decl : InitializerDecl) : Upholds (SameVariables base) (initializerMethod decl) :=
  upholds_bind (spared_refers builds_ownerOrUnknown) fun owner =>
    spared_change (fun _ => .initializer owner _) (fun _ => rfl) fun _ => trivial

theorem spared_attributeOfFragment (fragment : Fragment) (field : FieldDecl) :
    Upholds (SameVariables base) (attributeOfFragment ctx fragment field) := by
  have finish : ∀ (modifiers : List Modifier) (id : AttributeId), Upholds (SameVariables base) (do
      modify (edit (·.updateAttribute id fun a =>
        { a with toNamedEntity := { a.toNamedEntity.enrich modifiers with isStub := true } }))
      return id) := fun modifiers id =>
    upholds_bind (spared_change (fun _ => .attributeDeclared id modifiers) (fun _ => rfl) fun _ => trivial)
      fun _ => upholds_pure id
  unfold attributeOfFragment
  dsimp only
  cases fieldBinding? ctx fragment with
  | some b => exact upholds_bind (spared_refers (builds_attributeOfBinding ctx b)) (finish b.modifiers)
  | none => exact upholds_bind (spared_refers (builds_attributeOfUnbound ctx fragment field)) (finish field.modifiers)

theorem spared_localVariable (fragment : Fragment) (t : TypeRef) :
    Upholds (SameVariables base) (localVariable ctx fragment t) :=
  upholds_bind (spared_refers (builds_typeOfRef ctx t)) fun declared => upholds_bind upholds_currentMethod fun parent =>
    spared_change (fun _ => .localVariable fragment.name parent declared) (fun _ => rfl) fun _ => trivial

theorem spared_invoke (binding : Option Java.MethodIndex) (signature : String) :
    Upholds (SameVariables base) (invoke ctx binding signature) := by
  have finish : ∀ candidate, Upholds (SameVariables base) (do
      let sender ← currentMethod
      insert (Repository.insertInvocation sender [candidate] signature)) := fun candidate =>
    upholds_bind upholds_currentMethod fun sender =>
      spared_change (fun _ => .invocation sender candidate signature) (fun _ => rfl) fun _ => trivial
  unfold invoke
  dsimp only
  split
  · exact upholds_bind (spared_refers (builds_methodOfBinding ctx _)) finish
  · exact upholds_bind (spared_refers (builds_unresolvedMethod _)) finish

theorem spared_invokeExpr (e : Expr) : Upholds (SameVariables base) (invokeExpr ctx e) := by
  unfold invokeExpr
  split
  · exact upholds_pure none
  · exact upholds_map (spared_invoke ctx _ _)

end Spared

/-- A parameter has a name without a dot and belongs to a method that is found by name, and a parameter is accessed
by the method that it belongs to. -/
structure Formal (d : Draft) : Prop where
  mirrored : d.repository.Mirrored
  parameters : ∀ id q, d.repository.parameter? id = some q →
    '.' ∉ q.name.toList ∧ ∃ key, d.registry.methods.get? key = some q.parent
  accesses : ∀ id a q, d.repository.access? id = some a → a.variableRef = some (.parameter q) →
    ∃ x, d.repository.parameter? q = some x ∧ a.accessor = some x.parent

namespace Formal

variable {d e : Draft}

theorem rescope (h : Formal d) (scope : Scope) : Formal { d with scope } := ⟨h.mirrored, h.parameters, h.accesses⟩

theorem same (h : Formal d) (mirrored : e.repository.Mirrored) (registry : d.registry.Extends e.registry)
    (same : SameVariables d e) : Formal e := by
  have parameter : ∀ id, e.repository.parameter? id = d.repository.parameter? id := fun id =>
    congrArg (·[id.index]?) same.parameters
  have accessed : ∀ id, e.repository.access? id = d.repository.access? id := fun id =>
    congrArg (·[id.index]?) same.accesses
  refine ⟨mirrored, fun id q known => ?_, fun id a q known refers => ?_⟩
  · rw [parameter] at known
    obtain ⟨dotless, key, found⟩ := h.parameters id q known
    exact ⟨dotless, key, registry.methods _ _ found⟩
  · rw [accessed] at known
    rw [parameter]
    exact h.accesses id a q known refers

theorem refers (h : Formal d) {f : Drafting α} (builds : BuildsOnly Change.Refers f) : Formal (f d).2 := by
  have path := builds.path d
  refine h.same ?_ path.registry_extends (spared_refers builds d (.refl d))
  exact path.invariant (P := fun d => d.repository.Mirrored) h.mirrored fun c _ _ mirrored => mirrored.change c

theorem parameter (h : Formal d) {name : String} {parent : MethodId} (dotless : '.' ∉ name.toList)
    (found : ∃ key, d.registry.methods.get? key = some parent) (key : String) (declared : TypeId) :
    Formal ((Change.parameter key name parent declared).apply d) := by
  have mirrored := h.mirrored.change (.parameter key name parent declared)
  have extends_ := (Change.parameter key name parent declared).registry_extends d
  have keeps := (Change.parameter key name parent declared).keeps d
  have accesses : ((Change.parameter key name parent declared).apply d).repository.accesses =
      d.repository.accesses := by
    cases looked : d.registry.parameters.get? key with
    | some id => rw [Change.apply, internParameter_of_some looked]
    | none => rw [Change.apply, internParameter_of_none looked]; rfl
  refine ⟨mirrored, ?_, ?_⟩
  · intro id q known
    rcases (Change.parameter key name parent declared).parameters_cases d with
      same | ⟨_, _, _, _, same, pushed⟩
    · have known : d.repository.parameter? id = some q := (congrArg (·[id.index]?) same).symm.trans known
      obtain ⟨plain, own, listed⟩ := h.parameters id q known
      exact ⟨plain, own, extends_.methods _ _ listed⟩
    · cases same
      rw [Repository.parameter?, pushed, Array.getElem?_push] at known
      split at known
      · cases known
        obtain ⟨own, listed⟩ := found
        exact ⟨dotless, own, extends_.methods _ _ listed⟩
      · obtain ⟨plain, own, listed⟩ := h.parameters id q known
        exact ⟨plain, own, extends_.methods _ _ listed⟩
  · intro id a q known refers
    have known : d.repository.access? id = some a := (congrArg (·[id.index]?) accesses).symm.trans known
    obtain ⟨x, there, own⟩ := h.accesses id a q known refers
    obtain ⟨y, kept, same⟩ := keeps.parameters q.index x there
    exact ⟨y, kept, same ▸ own⟩

theorem access (h : Formal d) {accessor : Option MethodId} {target : Option VariableRef}
    (own : ∀ q, target = some (.parameter q) → ∃ x, d.repository.parameter? q = some x ∧ accessor = some x.parent) :
    Formal ((Change.access accessor target).apply d) := by
  refine ⟨h.mirrored.change (.access accessor target), h.parameters, fun id a q known refers => ?_⟩
  have known : (d.repository.accesses.push ⟨⟨d.repository.accesses.size⟩, accessor, target, false⟩)[id.index]? =
      some a := known
  rw [Array.getElem?_push] at known
  split at known
  · cases known
    exact own q refers
  · exact h.accesses id a q known refers

theorem written (h : Formal d) (id : AccessId) : Formal ((Change.written id).apply d) := by
  refine ⟨h.mirrored.change (.written id), h.parameters, fun other a q known refers => ?_⟩
  have known : (d.repository.accesses.modify id.index fun a => { a with isWrite := true })[other.index]? = some a :=
    known
  rw [Array.getElem?_modify] at known
  split at known
  · obtain ⟨b, there, rfl⟩ := Option.map_eq_some_iff.mp known
    exact h.accesses other b q there refers
  · exact h.accesses other a q known refers

end Formal

/-! What the name of a parameter reaches. -/

theorem currentParameter_own {d : Draft} (mirrored : d.repository.Mirrored) {name : String} {id : ParameterId}
    (found : d.currentParameter name = some id) : ∃ m q, d.scope.currentMethod = some m ∧
      d.repository.parameter? id = some q ∧ q.name = name ∧ q.parent = m := by
  simp only [currentParameter, Option.bind_eq_bind, Option.bind_eq_some_iff] at found
  obtain ⟨m, open_, q, first, same⟩ := found
  have listed := List.mem_of_find?_eq_some first
  rw [mirrored.parametersOf, List.mem_filter] at listed
  cases Option.some.inj same
  exact ⟨m, q, open_, mirrored.identified.parameters.getElem? listed.1, of_decide_eq_true (List.find?_some first :),
    of_decide_eq_true listed.2⟩

/-- If the method that is open has a parameter of this name, one is found. -/
theorem currentParameter_isSome {d : Draft} (mirrored : d.repository.Mirrored) {m : MethodId}
    (open_ : d.scope.currentMethod = some m) {id : ParameterId} {q : ParameterEntity}
    (known : d.repository.parameter? id = some q) (parent : q.parent = m) :
    ∃ found, d.currentParameter q.name = some found := by
  have listed : q ∈ d.repository.parametersOf m := by
    rw [mirrored.parametersOf, List.mem_filter]
    exact ⟨Array.mem_toList_iff.mpr (Array.mem_of_getElem? known), decide_eq_true parent⟩
  have first : ((d.repository.parametersOf m).find? (·.name = q.name)).isSome = true :=
    List.find?_isSome.mpr ⟨q, listed, decide_eq_true rfl⟩
  obtain ⟨x, found⟩ := Option.isSome_iff_exists.mp first
  refine ⟨x.id, ?_⟩
  simp only [currentParameter, open_, found, Option.bind_eq_bind, Option.bind_some]
  rfl

theorem variableOfBinding_parameter {ctx : Context} {b : VariableBinding} (kind : b.kind = .parameter) (d : Draft) :
    variableOfBinding ctx b d = ((d.currentParameter b.name).map .parameter, d) := by
  simp only [variableOfBinding, kind]
  rfl

theorem Formal.mention {d : Draft} (h : Formal d) (ctx : Context) (e : Expr) (assigned : Bool) :
    Formal (mention ctx e assigned d).2 := by
  cases bound : namedBinding? ctx e with
  | none =>
    rw [mention_of_none ctx bound]
    exact h
  | some b =>
    have reached := h.refers (builds_variableOfBinding ctx b)
    have scope := (builds_variableOfBinding ctx b).scope d
    have own : ∀ q, (variableOfBinding ctx b d).1 = some (.parameter q) →
        ∃ x, (variableOfBinding ctx b d).2.repository.parameter? q = some x ∧
          (variableOfBinding ctx b d).2.scope.currentMethod = some x.parent := by
      intro q refers
      cases kind : b.kind with
      | field =>
        simp only [variableOfBinding, kind] at refers
        cases refers
      | localVariable =>
        simp only [variableOfBinding, kind] at refers
        cases refers
      | parameter =>
        rw [variableOfBinding_parameter kind] at refers ⊢
        obtain ⟨id, found, same⟩ := Option.map_eq_some_iff.mp refers
        cases same
        obtain ⟨m, x, open_, known, -, rfl⟩ := currentParameter_own h.mirrored found
        exact ⟨x, known, open_⟩
    have accessed : Formal (accessExpr ctx e d).2 := by
      rw [accessExpr_of_some ctx bound]
      exact reached.access own
    cases assigned with
    | false =>
      rw [mention_read]
      exact accessed
    | true =>
      rw [mention_write ctx (by rw [accessExpr_of_some ctx bound])]
      exact accessed.written _

/-- A sound draft in which types have names, and methods and parameters are filed under theirs. -/
structure Lettered (d : Draft) : Prop where
  sound : Sound .links d
  indexed : Indexed d
  voiced : Voiced d
  formal : Formal d

namespace Lettered

variable {d e : Draft}

theorem walk (h : Lettered d) (walk : Walk .links d e) (voiced : Voiced e) (formal : Formal e) : Lettered e where
  sound := walk.sound h.sound
  indexed := walk.invariant h.sound h.indexed fun _ _ sound proper indexed => indexed.change sound.sited proper
  voiced := voiced
  formal := formal

theorem spared (h : Lettered d) (walk : Walk .links d e) (same : SameVariables d e) : Formal e := by
  have mirrored := walk.invariant (P := fun e => e.repository.Mirrored) h.sound h.formal.mirrored
    fun c _ _ _ mirrored => mirrored.change c
  exact h.formal.same mirrored walk.registry_extends same

/-- No two methods that are found by name have the same name. -/
theorem method_eq (h : Lettered d) {m n : MethodId} (here : ∃ key, d.registry.methods.get? key = some m)
    (there : ∃ key, d.registry.methods.get? key = some n)
    (same : d.repository.methodName m = d.repository.methodName n) : m = n := by
  have named : ∀ id key, d.registry.methods.get? key = some id → d.repository.methodName id = key := by
    intro id key found
    obtain ⟨x, known⟩ := (h.sound.sited.known.methods key id found).method
    rw [h.voiced.spoken.methodName_eq h.sound.sited.rooted known, h.indexed.methods key id found]
  obtain ⟨key, found⟩ := here
  obtain ⟨other, listed⟩ := there
  rw [named m key found, named n other listed] at same
  subst same
  exact Option.some.inj (found.symm.trans listed)

/-- What is found under the name of a method and that of a parameter is the parameter of the method. -/
theorem parameter_own (h : Lettered d) {m : MethodId} {name : String} {id : ParameterId} (dotless : '.' ∉ name.toList)
    (listed : ∃ key, d.registry.methods.get? key = some m)
    (found : d.registry.parameters.get? (d.repository.methodName m ++ "." ++ name) = some id) :
    ∃ q, d.repository.parameter? id = some q ∧ q.name = name ∧ q.parent = m := by
  have known : d.repository.parameter? id = some _ :=
    Array.getElem?_eq_getElem (h.sound.sited.known.parameters _ id found)
  obtain ⟨plain, own⟩ := h.formal.parameters id _ known
  have texts := congrArg String.toList (h.indexed.parameters _ id found)
  rw [Repository.parameterKey_eq known, toList_dotted, toList_dotted] at texts
  obtain ⟨outer, inner⟩ := append_cons_inj plain dotless texts
  exact ⟨_, known, String.toList_inj.mp inner, h.method_eq own listed (String.toList_inj.mp outer)⟩

end Lettered

theorem parameterOfDecl_registers (ctx : Context) (decl : ParameterDecl) (m : MethodId) (d : Draft) :
    (parameterOfDecl ctx decl m d).2.registry.parameters.get? (d.repository.methodName m ++ "." ++ decl.name) =
      some (parameterOfDecl ctx decl m d).1 := by
  unfold parameterOfDecl
  rw [get_bind_apply]
  cases looked : d.registry.parameters.get? (d.repository.methodName m ++ "." ++ decl.name) with
  | some id => exact looked
  | none => exact internParameter_registers ..

theorem methodOfDecl_registers (ctx : Context) (decl : MethodDecl) (d : Draft) :
    ∃ key, (methodOfDecl ctx decl d).2.registry.methods.get? key = some (methodOfDecl ctx decl d).1 := by
  have within : ∀ (owner : TypeId) (e : Draft), ∃ key,
      (methodWithin ctx decl owner e).2.registry.methods.get? key = some (methodWithin ctx decl owner e).1 := by
    intro owner e
    unfold methodWithin
    cases ctx.bindings.resolveMethod decl.binding decl with
    | resolved index b => exact ⟨_, (introduces_methodOfResolved ctx b owner e).registers⟩
    | unresolved decl => exact ⟨_, (introduces_methodOfUnboundDecl ctx decl owner e).registers⟩
  rw [methodOfDecl_eq]
  exact within (ownerOrUnknown d).1 (ownerOrUnknown d).2

/-- Whether a method has a parameter of this name. -/
def HasParameter (d : Draft) (m : MethodId) (name : String) : Prop :=
  ∃ id q, d.repository.parameter? id = some q ∧ q.name = name ∧ q.parent = m

theorem HasParameter.later {d e : Draft} {m : MethodId} {name : String} (h : HasParameter d m name)
    (later : Later d e) : HasParameter e m name := by
  obtain ⟨id, q, known, named, own⟩ := h
  obtain ⟨q', kept, rfl⟩ := later.keeps.parameters id.index q known
  exact ⟨id, q, kept, named, own⟩

section Declaring

variable {ctx : Context} (refers : Referable ctx (fun _ => True) Voiced) {d : Draft} (h : Lettered d) {m : MethodId}
include refers h

theorem lettered_parameterOfDecl (listed : ∃ key, d.registry.methods.get? key = some m) {decl : ParameterDecl}
    (dotless : '.' ∉ decl.name.toList) :
    Lettered (parameterOfDecl ctx decl m d).2 ∧ HasParameter (parameterOfDecl ctx decl m d).2 m decl.name := by
  obtain ⟨key, found⟩ := listed
  have there : Present m d := h.sound.sited.known.methods key m found
  have walk := (achieves_parameterOfDecl ctx.keeps_links h.sound decl there).walk
  have voiced : Voiced (parameterOfDecl ctx decl m d).2 :=
    upholds_parameterOfDecl refers (fun _ _ => trivial) m d h.voiced
  have formal : Formal (parameterOfDecl ctx decl m d).2 := by
    unfold parameterOfDecl
    rw [get_bind_apply]
    cases d.registry.parameters.get? (d.repository.methodName m ++ "." ++ decl.name) with
    | some id => exact h.formal
    | none =>
      have builds := builds_typeOfRef ctx decl.type
      exact (h.formal.refers builds).parameter dotless ⟨key, (builds.path d).registry_extends.methods _ _ found⟩ _ _
  have lettered := h.walk walk voiced formal
  have filed := parameterOfDecl_registers ctx decl m d
  rw [← h.sound.sited.rooted.methodName_keep walk.keeps there] at filed
  exact ⟨lettered, _, lettered.parameter_own dotless ⟨key, walk.registry_extends.methods _ _ found⟩ filed⟩

/-- After its parameters have been declared, a method has one for each name. -/
theorem lettered_declareParameters (listed : ∃ key, d.registry.methods.get? key = some m) {decls : List ParameterDecl}
    (dotless : ∀ decl ∈ decls, '.' ∉ decl.name.toList) : Lettered (declareParameters ctx m decls d).2 ∧
      ∀ decl ∈ decls, HasParameter (declareParameters ctx m decls d).2 m decl.name := by
  induction decls generalizing d with
  | nil => exact ⟨h, nofun⟩
  | cons decl rest ih =>
    obtain ⟨own, others⟩ := List.forall_mem_cons.mp dotless
    obtain ⟨lettered, here⟩ := lettered_parameterOfDecl refers h listed own
    obtain ⟨key, found⟩ := listed
    have kept := (Later.path ((builds_parameterOfDecl ctx decl m).path d)).registry.methods _ _ found
    obtain ⟨lettered, there⟩ := ih lettered ⟨key, kept⟩ others
    have first := here.later (.path ((builds_declareParameters ctx m rest).path _))
    exact ⟨lettered, List.forall_mem_cons.mpr ⟨first, there⟩⟩

theorem lettered_methodWithParameters {decl : MethodDecl} (dotless : ∀ q ∈ decl.parameters, '.' ∉ q.name.toList) :
    Lettered (methodWithParameters ctx decl d).2 ∧
      ∀ q ∈ decl.parameters, HasParameter (methodWithParameters ctx decl d).2 (methodOfDecl ctx decl d).1 q.name := by
  have walk := (achieves_methodOfDecl h.sound ctx.keeps_links decl).walk
  have voiced : Voiced (methodOfDecl ctx decl d).2 := upholds_methodOfDecl refers (fun _ _ _ _ => trivial) d h.voiced
  have formal := h.spared walk (spared_methodOfDecl ctx decl d (.refl d))
  exact lettered_declareParameters refers (h.walk walk voiced formal) (methodOfDecl_registers ctx decl d) dotless

end Declaring

end Draft

namespace Mark

open Draft (Lettered)

def formals : Mark → List ParameterDecl
  | .method decl => decl.parameters
  | _ => []

/-- A type that is declared has a name, and no name of a parameter has a dot. -/
structure Legible (m : Mark) : Prop where
  declared : ∀ decl ∈ m.declaredType?, decl.name ≠ ""
  formals : ∀ q ∈ m.formals, '.' ∉ q.name.toList

instance (m : Mark) : Decidable m.Legible :=
  decidable_of_iff ((∀ decl ∈ m.declaredType?, decl.name ≠ "") ∧ ∀ q ∈ m.formals, '.' ∉ q.name.toList)
    ⟨fun h => ⟨h.1, h.2⟩, fun h => ⟨h.declared, h.formals⟩⟩

theorem Legible.fits {m : Mark} (h : m.Legible) : m.Fits .names := by
  cases m with
  | type decl => exact fun _ => h.declared decl rfl
  | _ => trivial

section Visits

variable {ctx : Context} (refers : Draft.Referable ctx (fun _ => True) Draft.Voiced)
include refers

theorem lettered_act {d : Draft} (h : Lettered d) {m : Mark} (legible : m.Legible) : Lettered (m.act ctx d) := by
  have walk := (achieves_prepare ctx.keeps_links h.sound m.fits_links).walk
  have spared := h.spared walk
  have formal : Draft.Formal (m.prepare ctx d).2 := by
    cases m with
    | package name => exact spared (Draft.spared_refers (Draft.builds_ensureNamespace name) d (.refl d))
    | type decl => exact spared (Draft.spared_typeOfDecl ctx decl d (.refl d))
    | anonymous a t => exact spared (Draft.spared_typeOfAnonymous ctx a t d (.refl d))
    | method decl => exact (Draft.lettered_methodWithParameters refers h legible.formals).1.formal
    | initializer decl => exact spared (Draft.spared_initializerMethod decl d (.refl d))
    | close => exact h.formal
    | field fragment decl => exact spared (Draft.spared_attributeOfFragment ctx fragment decl d (.refl d))
    | localVariable fragment t => exact spared (Draft.spared_localVariable ctx fragment t d (.refl d))
    | call e => exact spared (Draft.spared_invokeExpr ctx e d (.refl d))
    | mention identifier binding assigned => exact h.formal.mention ctx _ assigned
  have indexed := walk.invariant (P := Draft.Indexed) h.sound h.indexed fun _ _ sound proper indexed =>
    indexed.change sound.sited proper
  exact {
    sound := sound_act ctx.keeps_links h.sound m.fits_links
    indexed := ⟨indexed.owned, indexed.methods, indexed.parameters⟩
    voiced := Draft.voiced_act refers legible.fits h.voiced
    formal := formal.rescope _ }

theorem lettered_actAll {marks : List Mark} (legible : ∀ m ∈ marks, m.Legible) : Lettered (actAll ctx marks {}) := by
  induction marks using List.reverseRecOn with
  | nil => exact ⟨Operation.sound_empty .links, ⟨⟨nofun, nofun⟩, nofun, nofun⟩, .empty, ⟨.empty, nofun, nofun⟩⟩
  | append_singleton marks m ih =>
    obtain ⟨others, own⟩ := List.forall_mem_append.mp legible
    rw [actAll_append]
    exact lettered_act refers (ih others) (own m List.mem_cons_self)

end Visits

end Mark

def Access.SameEnds (a b : Access) : Prop := b.accessor = a.accessor ∧ b.variableRef = a.variableRef

theorem Change.accesses_grown (c : Change) (d : Draft) :
    Grown (fun _ => Access.SameEnds) d.repository.accesses (c.apply d).repository.accesses := by
  have same : Grown (fun _ => Access.SameEnds) d.repository.accesses d.repository.accesses :=
    .refl (fun _ _ => ⟨rfl, rfl⟩) _
  have result := c.result d
  generalize c.apply d = e at result ⊢
  cases result with
  | known | space | type | method | field | parameter => exact same
  | direct c direct =>
    cases c with
    | space | type | method | field | parameter => cases direct
    | access => exact same.push _
    | written => exact same.modify _ _ fun _ _ _ ends => ends
    | _ => exact same

/-- The name of a parameter makes an access in the method that is open, to the parameter that it reaches. -/
theorem Draft.mention_parameter {ctx : Context} {e : Expr} {b : VariableBinding} (bound : namedBinding? ctx e = some b)
    (kind : b.kind = .parameter) (assigned : Bool) (d : Draft) :
    ∃ id a, (accessExpr ctx e d).1 = some id ∧ (mention ctx e assigned d).2.repository.access? id = some a ∧
      a.accessor = d.scope.currentMethod ∧ a.variableRef = (d.currentParameter b.name).map .parameter := by
  have made := accessExpr_of_some ctx bound d
  rw [variableOfBinding_parameter kind] at made
  have found := congrArg Prod.fst made
  have known : (accessExpr ctx e d).2.repository.accesses[d.repository.accesses.size]? = some
      ⟨⟨d.repository.accesses.size⟩, d.scope.currentMethod, (d.currentParameter b.name).map .parameter, false⟩ := by
    rw [made]
    exact Array.getElem?_push_size
  cases assigned with
  | false =>
    rw [mention_read]
    exact ⟨_, _, found, known, rfl, rfl⟩
  | true =>
    rw [mention_write ctx found]
    obtain ⟨a, there, accessor, target⟩ := Change.accesses_grown (.written _) _ _ _ known
    exact ⟨_, a, found, there, accessor, target⟩

theorem Mark.accesses_actAll (ctx : Context) (marks : List Mark) (d : Draft) :
    Grown (fun _ => Access.SameEnds) d.repository.accesses (actAll ctx marks d).repository.accesses := by
  rw [← applyAll_history]
  refine Operation.applyAll_invariant
    (P := fun e => Grown (fun _ => Access.SameEnds) d.repository.accesses e.repository.accesses) ctx ?_
    (fun _ _ grown => grown) _ d (.refl (fun _ _ => ⟨rfl, rfl⟩) _)
  exact fun c e grown => grown.trans (fun _ _ _ _ p q => ⟨q.1.trans p.1, q.2.trans p.2⟩) (c.accesses_grown e)

namespace Place

variable {ctx : Context} {p q : Place} {decl : MethodDecl}

theorem currentMethod_inside (inside : p.enclosing.head? = some q) (declares : q.mark = .method decl) :
    (p.draft ctx).scope.currentMethod = some (Draft.methodOfDecl ctx decl (q.draft ctx)).1 := by
  rw [currentMethod_draft, method?, inside, Option.bind_some, declared?, declares]

/-- In its body a method has the parameters that it declares. -/
theorem parameters_inside (refers : Draft.Referable ctx (fun _ => True) Draft.Voiced)
    (legible : ∀ m ∈ p.before, m.Legible) (inside : p.enclosing.head? = some q) (declares : q.mark = .method decl) :
    ∀ x ∈ decl.parameters, (p.draft ctx).HasParameter (Draft.methodOfDecl ctx decl (q.draft ctx)).1 x.name := by
  obtain ⟨rest, split⟩ := Mark.mem_unclosed (List.mem_of_head? inside)
  rw [split] at legible
  obtain ⟨earlier, later⟩ := List.forall_mem_append.mp legible
  have own : (Mark.method decl).Legible := declares ▸ later q.mark List.mem_cons_self
  have opened := (Draft.lettered_methodWithParameters refers (Mark.lettered_actAll refers earlier) own.formals).2
  intro x mem
  obtain ⟨id, y, known, named⟩ := opened x mem
  -- the body is acted on after the parameters, in a draft that differs in what is open
  have acted : (Mark.act ctx (.method decl) (q.draft ctx)).HasParameter _ x.name := ⟨id, y, known, named⟩
  rw [draft, split, Mark.actAll_append, Mark.actAll_cons, declares]
  exact acted.later (Mark.later_actAll ctx rest _)

/-- The access that the name of a parameter makes stays, with what it reaches and the method that it is made in. -/
theorem access_stays (ctx : Context) {marks : List Mark} {b : VariableBinding} {identifier : String}
    {i : Java.VariableIndex} {assigned : Bool} (read : p ∈ Mark.places marks)
    (mentions : p.mark = .mention identifier (some i) assigned) (bound : ctx.bindings.variableAt? i = some b)
    (kind : b.kind = .parameter) :
    ∃ id a, (Draft.accessExpr ctx (.name identifier (some i)) (p.draft ctx)).1 = some id ∧
      (Mark.actAll ctx marks {}).repository.access? id = some a ∧
      a.accessor = (p.draft ctx).scope.currentMethod ∧
      a.variableRef = ((p.draft ctx).currentParameter b.name).map .parameter := by
  obtain ⟨rest, rfl⟩ := Mark.mem_places read
  have named : Draft.namedBinding? ctx (.name identifier (some i)) = some b := bound
  obtain ⟨id, a, made, there, accessor, target⟩ := Draft.mention_parameter named kind assigned (p.draft ctx)
  have acted : (Mark.act ctx p.mark (p.draft ctx)).repository.access? id = some a := mentions ▸ there
  rw [Mark.actAll_append, Mark.actAll_cons]
  obtain ⟨x, stays, sameAccessor, sameTarget⟩ := Mark.accesses_actAll ctx rest _ _ a acted
  exact ⟨id, x, made, stays, sameAccessor.trans accessor, sameTarget.trans target⟩

end Place

/-- Names of parameters reach the right parameters. If types have names and no name of a parameter has a dot, then a
name that stands in the body of a method and is bound to a parameter is accessed by the method, and if the method
declares a parameter of that name, this parameter of the method is what it reaches. And wherever a parameter is
accessed, it is by the method that it belongs to. -/
theorem parameter_accesses (project : Project) (keying : AttributeKeying)
    (table : ∀ b ∈ project.bindings.types, b.name ≠ "") (source : ∀ m ∈ readUnits project.units, m.Legible) :
    let ctx : Context := { bindings := project.bindings, keying }
    let model := buildModel project keying
    (∀ p ∈ Mark.places (readUnits project.units), ∀ q decl identifier i assigned b, p.enclosing.head? = some q →
      q.mark = .method decl → p.mark = .mention identifier (some i) assigned →
      project.bindings.variableAt? i = some b → b.kind = .parameter →
      let method := (Draft.methodOfDecl ctx decl (q.draft ctx)).1
      ∃ id a, (Draft.accessExpr ctx (.name identifier (some i)) (p.draft ctx)).1 = some id ∧
        model.access? id = some a ∧ a.accessor = some method ∧
        ((∃ x ∈ decl.parameters, x.name = b.name) → ∃ pid x, a.variableRef = some (.parameter pid) ∧
          model.parameter? pid = some x ∧ x.name = b.name ∧ x.parent = method)) ∧
      ∀ id a pid, model.access? id = some a → a.variableRef = some (.parameter pid) →
        ∃ x, model.parameter? pid = some x ∧ a.accessor = some x.parent := by
  intro ctx model
  have refers : Draft.Referable ctx (fun _ => True) Draft.Voiced := Draft.referable_voiced table
  have reads : model = (Mark.actAll ctx (readUnits project.units) {}).repository := buildModel_reads ..
  refine ⟨?_, ?_⟩
  · intro p read q decl identifier i assigned b inside declares mentions bound kind method
    have current : (p.draft ctx).scope.currentMethod = some method := Place.currentMethod_inside inside declares
    obtain ⟨id, a, accesses, known, accessor, target⟩ := Place.access_stays ctx read mentions bound kind
    refine ⟨id, a, accesses, reads ▸ known, accessor.trans current, ?_⟩
    rintro ⟨x, mem, named⟩
    obtain ⟨rest, split⟩ := Mark.mem_places read
    rw [split] at source
    have earlier := (List.forall_mem_append.mp source).1
    have mirrored : (p.draft ctx).repository.Mirrored := (Mark.lettered_actAll refers earlier).formal.mirrored
    obtain ⟨first, y, there, called, own⟩ := Place.parameters_inside refers earlier inside declares x mem
    obtain ⟨pid, found⟩ := Draft.currentParameter_isSome mirrored current there own
    rw [called, named] at found
    obtain ⟨m, z, open_, reaches, same, parent⟩ := Draft.currentParameter_own mirrored found
    cases current.symm.trans open_
    obtain ⟨z', kept, rfl⟩ := (Mark.later_actAll ctx (p.mark :: rest) (p.draft ctx)).keeps.parameters _ z reaches
    refine ⟨pid, z, ?_, ?_, same, parent⟩
    · rw [target, found]
      rfl
    · rw [reads, split, Mark.actAll_append]
      exact kept
  · rw [reads]
    exact (Mark.lettered_actAll refers source).formal.accesses

/-- One of two methods that differ in the type of their parameter; the name of the parameter stands in its body. -/
def overload (type : String) : MethodDecl where
  name := "m"
  binding := none
  isConstructor := false
  returnType := none
  parameters := [{ name := "x", type := { written := .simple type } }]
  modifiers := []
  body := [.returned (some (.name "x" (some 0)))]

def overloadDecl : TypeDecl where
  name := "B"
  kind := .classType
  binding := none
  modifiers := []
  superclass := none
  interfaces := []
  body := [.method (overload "X"), .method (overload "Y")]

def overloadProject : Project where
  bindings := { types := [.inPackage "p" "A"], vars := [{ name := "x", kind := .parameter }] }
  units := [{ types := [overloadDecl] }]

/-- The place of the second method. -/
def overloadPlace : Place := ⟨(readUnits overloadProject.units).take 4, .method (overload "Y")⟩

theorem parameter_accesses_overload :
    let model := buildModel overloadProject .keyed
    (∀ b ∈ overloadProject.bindings.types, b.name ≠ "") ∧ (∀ m ∈ readUnits overloadProject.units, m.Legible) ∧
      ∃ id a pid x, model.access? id = some a ∧ a.accessor = some ⟨1⟩ ∧ a.variableRef = some (.parameter pid) ∧
        model.parameter? pid = some x ∧ x.name = "x" ∧ x.parent = ⟨1⟩ := by
  intro model
  have table : ∀ b ∈ overloadProject.bindings.types, b.name ≠ "" := by decide
  have source : ∀ m ∈ readUnits overloadProject.units, m.Legible := by decide +kernel
  obtain ⟨each, -⟩ := parameter_accesses overloadProject .keyed table source
  obtain ⟨id, a, -, known, accessor, reaches⟩ := each
    ⟨(readUnits overloadProject.units).take 5, .mention "x" (some 0) false⟩ (List.mem_of_getElem? (i := 5) rfl)
    overloadPlace (overload "Y") "x" 0 false { name := "x", kind := .parameter } rfl rfl rfl rfl rfl
  obtain ⟨pid, x, target, there, named, parent⟩ := reaches ⟨_, List.mem_cons_self, rfl⟩
  have second : (Draft.methodOfDecl { bindings := overloadProject.bindings } (overload "Y")
      (overloadPlace.draft { bindings := overloadProject.bindings })).1 = ⟨1⟩ := by decide +kernel
  exact ⟨table, source, id, a, pid, x, known, accessor.trans (congrArg some second), target, there, named,
    parent.trans second⟩

end Famix
