import Famix.Proofs.Anonymous
import Famix.Proofs.Closure

/-!
Names that are not empty. A type has an empty name only if it has none of its own and its container has none either, so
that where every class is named all types have names. A method is then found under the name it has in its type, and a
parameter under the name it has in its method.
-/
namespace Famix

open Java (BindingTable TypeBinding TypeDecl AnonymousClass TypeRef)

theorem joinName_ne_of_outer {outer : String} (h : outer ≠ "") (name : String) : joinName outer name ≠ "" := by
  rw [joinName_of_ne h]
  exact append_dot_ne outer name

namespace Repository

/-- The key under which a method is filed. -/
def methodKey (r : Repository) (id : MethodId) : String :=
  (r.method? id).elim "" fun m => r.typeName m.parentType ++ "." ++ m.signature

def parameterKey (r : Repository) (id : ParameterId) : String :=
  (r.parameter? id).elim "" fun q => r.methodName q.parent ++ "." ++ q.name

variable {r : Repository}

theorem methodKey_eq {id : MethodId} {m : MethodEntity} (known : r.method? id = some m) :
    r.methodKey id = r.typeName m.parentType ++ "." ++ m.signature := by
  rw [methodKey, known]
  rfl

theorem parameterKey_eq {id : ParameterId} {q : ParameterEntity} (known : r.parameter? id = some q) :
    r.parameterKey id = r.methodName q.parent ++ "." ++ q.name := by
  rw [parameterKey, known]
  rfl

/-- A container in which a type has a name even without one of its own. -/
def Wordy (r : Repository) : Container → Prop
  | .ns id => ∃ n, r.ns? id = some n ∧ n.name ≠ ""
  | .type _ => True
  | .method _ => False

theorem Wordy.keep {s : Repository} {c : Container} (h : r.Wordy c) (keeps : r.Keeps s) : s.Wordy c := by
  cases c with
  | ns id =>
    obtain ⟨n, known, nonempty⟩ := h
    obtain ⟨m, kept, same⟩ := keeps.namespaces id.index n known
    exact ⟨m, kept, same ▸ nonempty⟩
  | type id => trivial
  | method id => exact h

/-- Types without a name of their own stand in containers that give them one. -/
def Spoken (r : Repository) : Prop := ∀ id t, r.type? id = some t → t.name = "" → r.Wordy t.container

theorem Spoken.nonempty_within (h : r.Spoken) {n : Nat} {c : Container} (settled : r.Settled n c) (id : TypeId)
    (own : c = .type id) : r.containerNameWithin n c ≠ "" := by
  induction settled generalizing id with
  | ns | method => cases own
  | @type n other t known outer ih =>
    rw [containerNameWithin_type known]
    by_cases named : t.name = ""
    · have wordy := h other t known named
      apply joinName_ne_of_outer
      cases container : t.container with
      | method o =>
        rw [container] at wordy
        exact wordy.elim
      | type o =>
        rw [← container]
        exact ih o container
      | ns o =>
        rw [container] at wordy outer
        obtain ⟨x, here, nonempty⟩ := wordy
        cases outer with
        | ns known =>
          simp only [containerNameWithin, here]
          exact nonempty
    · exact joinName_ne named _

theorem Spoken.typeName_ne (h : r.Spoken) (rooted : r.Rooted) {id : TypeId} (there : r.Holds id.element) :
    r.typeName id ≠ "" := h.nonempty_within (rooted (.type id) there) id rfl

/-- Where types have names, a method is filed under its own. -/
theorem Spoken.methodName_eq (h : r.Spoken) (rooted : r.Rooted) {id : MethodId} {m : MethodEntity}
    (known : r.method? id = some m) : r.methodName id = r.methodKey id := by
  rw [rooted.methodName_eq known, methodKey_eq known, joinName_of_ne]
  exact h.typeName_ne rooted (rooted.method_parent known).holds

end Repository

namespace Draft

/-- Methods and parameters are filed under their names. -/
structure Indexed (d : Draft) : Prop where
  owned : d.repository.Owned
  methods : d.registry.methods.Names d.repository.methodKey
  parameters : d.registry.parameters.Names d.repository.parameterKey

theorem Indexed.keep {d : Draft} (h : Indexed d) (sited : Sited d) {s : Repository} (keeps : d.repository.Keeps s) :
    d.registry.methods.Names s.methodKey ∧ d.registry.parameters.Names s.parameterKey := by
  constructor
  · refine h.methods.keep fun key id found => ?_
    obtain ⟨m, known⟩ := (sited.known.methods key id found).method
    obtain ⟨n, kept, signature, parent⟩ := keeps.methods id.index m known
    rw [Repository.methodKey_eq kept, Repository.methodKey_eq known, signature, parent,
      sited.rooted.typeName_keep keeps (sited.rooted.method_parent known).holds]
  · refine h.parameters.keep fun key id found => ?_
    have known : d.repository.parameter? id = some _ :=
      Array.getElem?_eq_getElem (sited.known.parameters key id found)
    obtain ⟨q, kept, same⟩ := keeps.parameters id.index _ known
    rw [Repository.parameterKey_eq kept, Repository.parameterKey_eq known, ← same,
      sited.rooted.methodName_keep keeps (h.owned.callers id.index _ known)]

theorem Indexed.change {p : Promises} {d : Draft} {c : Change} (h : Indexed d) (sited : Sited d)
    (proper : c.Proper p d) : Indexed (c.apply d) := by
  have keeps := c.keeps d
  have filed := proper.filed
  obtain ⟨methods, parameters⟩ := h.keep sited keeps
  have owned := h.owned.change proper
  have result := c.result d
  generalize c.apply d = e at keeps methods parameters owned result ⊢
  cases result with
  | known | space | type | field => exact ⟨owned, methods, parameters⟩
  | @method key own signature parent isConstructor fresh =>
    have outer : d.repository.Holds parent.element := proper.there trivial _ List.mem_cons_self
    have known : (d.addMethod key (.stub own) parent signature (methodKind isConstructor)).repository.method?
        ⟨d.repository.methods.size⟩ = some { NamedEntity.stub own with
          id := ⟨d.repository.methods.size⟩, parentType := parent, signature, kind := methodKind isConstructor } :=
      Array.getElem?_push_size
    refine ⟨owned, methods.insert ?_, parameters⟩
    rw [Repository.methodKey_eq known, sited.rooted.typeName_keep keeps outer]
    exact filed.symm
  | @parameter key own parent declared fresh =>
    have outer : d.repository.Holds parent.element := proper.there trivial _ List.mem_cons_self
    have known : (d.addParameter key { NamedEntity.stub own with isStub := false } parent
        declared).repository.parameter? ⟨d.repository.parameters.size⟩ = some { NamedEntity.stub own with
          isStub := false, id := ⟨d.repository.parameters.size⟩, parent, declaredType := declared } :=
      Array.getElem?_push_size
    refine ⟨owned, methods, parameters.insert ?_⟩
    rw [Repository.parameterKey_eq known, sited.rooted.methodName_keep keeps outer]
    exact filed.symm
  | direct c direct =>
    cases c with
    | space | type | method | field | parameter => cases direct
    | _ => exact ⟨owned, methods, parameters⟩

/-- The registry agrees with the repository, and types have names. -/
structure Voiced (d : Draft) : Prop where
  agree : d.registry.Matches d.repository
  namespaces : d.registry.namespaces.Names d.repository.namespaceName
  spoken : d.repository.Spoken

namespace Voiced

variable {d : Draft}

theorem empty : Voiced {} where
  agree := .empty
  namespaces := nofun
  spoken _ _ known := by cases known

theorem rescope (h : Voiced d) (scope : Scope) : Voiced { d with scope } := ⟨h.agree, h.namespaces, h.spoken⟩

theorem keep (h : Voiced d) {c : Change} (other : ∀ key name container kind, c ≠ .type key name container kind) :
    Voiced (c.apply d) := by
  have keeps := c.keeps d
  refine ⟨h.agree.change c, c.namespaces_named h.agree h.namespaces, fun id t known unnamed => ?_⟩
  have old : Present id d := Nat.lt_of_lt_of_eq (Repository.holds_type known) (Change.same_types other d).1
  have held : d.repository.type? id = some _ := Array.getElem?_eq_getElem old
  obtain ⟨u, kept, name, container⟩ := keeps.types id.index _ held
  cases known.symm.trans kept
  rw [container]
  exact (h.spoken id _ held (name ▸ unnamed)).keep keeps

theorem mild (h : Voiced d) {c : Change} (mild : c.Mild) : Voiced (c.apply d) := by
  apply h.keep
  rintro key name container kind rfl
  exact mild

theorem type (h : Voiced d) {key name : String} {c : Container} (kind : TypeKind)
    (wordy : name = "" → d.repository.Wordy c) : Voiced (internType key name c kind d).2 := by
  cases looked : d.registry.types.get? key with
  | some id =>
    rw [internType_of_some looked]
    exact h
  | none =>
    have keeps : d.repository.Keeps (d.addType key name c kind looked).repository := keeps_addType looked
    rw [internType_of_none looked]
    refine ⟨apply_type looked ▸ h.agree.change (.type key name c kind),
      apply_type looked ▸ (Change.type key name c kind).namespaces_named h.agree h.namespaces, ?_⟩
    intro id t known unnamed
    rcases (present_addType looked).mp (Repository.holds_type known) with old | rfl
    · rw [type?_addType_old looked old] at known
      exact (h.spoken id t known unnamed).keep keeps
    · cases known.symm.trans (type?_addType_new looked)
      exact (wordy unnamed).keep keeps

theorem unknownTypeNamed (h : Voiced d) (name : String) : Voiced (unknownTypeNamed name d).2 := by
  have space : Voiced (unknownNamespace d).2 := unknownNamespace_mild (fun _ _ mild h => h.mild mild) h
  have known := unknownNamespace_registers d
  refine space.type (c := .ns (unknownNamespace d).1) .unknown fun _ => ?_
  have there : (unknownNamespace d).2.repository.ns? (unknownNamespace d).1 = some _ :=
    Array.getElem?_eq_getElem (space.agree.namespaces.leads _ _ known)
  have named := (Repository.namespaceName_eq there).symm.trans (space.namespaces _ _ known)
  exact ⟨_, there, fun empty => absurd (named.symm.trans empty) (by decide)⟩

theorem ensureTypeParameters (h : Voiced d) (owner : TypeId) (key : String) (names : List String) :
    Voiced (ensureTypeParameters owner key names d).draft := by
  induction names generalizing d with
  | nil => exact h
  | cons name names ih => exact ih (h.type (c := .type owner) .typeParameter fun _ => trivial)

end Voiced

theorem Resolves.voiced {table : BindingTable} {task : Task} {d e : Draft} {found : Found}
    (run : Resolves table task d found e) (named : ∀ b ∈ table.types, b.name ≠ "") (voiced : Voiced d)
    (listed : task.Listed table) : Voiced e := by
  induction run with
  | inside known _ ih => exact ih voiced (List.mem_of_getElem? known)
  | beyond => exact unknownType_mild (fun _ _ mild h => h.mild mild) (voiced.unknownTypeNamed unknownName)
  | finished | unlinked | plain | known => exact voiced
  | next _ _ ihFirst ihOthers => exact ihOthers (ihFirst voiced trivial) trivial
  | @link s id i is d e f _ _ ihFirst ihOthers =>
    exact ihOthers ((ihFirst voiced trivial).keep (c := .inheritance s id) nofun) trivial
  | enclosed outer _ _ ih => exact ih voiced outer.listed
  | @free b d free => exact voiced.mild (c := .space (b.package.getD unknownName)) trivial
  | @parameterized b id erasure arguments d e f _ _ _ ihErased ihApplied =>
    have applied := ihApplied (ihErased voiced trivial) trivial
    exact applied.keep (c := .typeKind id (.parameterized erasure arguments)) nofun
  | @generic b id d _ => exact (voiced.ensureTypeParameters id _ _).keep (c := .typeKind id _) nofun
  | met _ _ _ ihPlace => exact ihPlace voiced listed
  | @made b c d e f g _ _ _ _ _ ihPlace ihLinks ihCompletion =>
    have interned : Voiced (internType (typeKey table b) b.name c (kindOf b) e).2 :=
      (ihPlace voiced listed).type (kindOf b) fun unnamed => absurd unnamed (named b listed)
    have start : Voiced (started table b c e) :=
      interned.mild (c := .typeModifiers ⟨e.repository.types.size⟩ b.modifiers) trivial
    exact ihCompletion (ihLinks start trivial) listed

theorem referable_voiced {ctx : Context} (named : ∀ b ∈ ctx.bindings.types, b.name ≠ "") :
    Referable ctx (fun _ => True) Voiced where
  bound i d voiced := (resolveIndex_runs ctx.bindings i d).voiced named voiced trivial
  written name _ _ voiced := voiced.unknownTypeNamed name
  unknown := trivial
  mild _ _ mild voiced := voiced.mild mild

section Visits

variable {ctx : Context} (refers : Referable ctx (fun _ => True) Voiced)

theorem upholds_internType {name : String} (named : name ≠ "") (key : String) (c : Container) (kind : TypeKind) :
    Upholds Voiced (internType key name c kind) := fun _ voiced => voiced.type kind fun unnamed => absurd unnamed named

include refers

theorem upholds_inheritRef (id : TypeId) (t : TypeRef) : Upholds Voiced (inheritRef ctx id t) := by
  intro d voiced
  have referred : Voiced (typeOfRef ctx t d).2 := upholds_typeOfRef refers (fun _ _ => trivial) d voiced
  exact referred.keep (c := .inheritance id (typeOfRef ctx t d).1) nofun

theorem upholds_inheritRefs (id : TypeId) (ts : List TypeRef) : Upholds Voiced (inheritRefs ctx id ts) := by
  induction ts with
  | nil => exact upholds_pure _
  | cons t ts ih => exact upholds_bind (upholds_inheritRef refers id t) fun _ => ih

theorem upholds_typeOfUnboundDecl {decl : TypeDecl} (named : decl.name ≠ "") :
    Upholds Voiced (typeOfUnboundDecl ctx decl) := by
  refine upholds_bind (upholds_containerOrUnknown refers) fun c => upholds_bind upholds_get fun d => ?_
  refine upholds_bind (upholds_internType named _ c _) fun ensured => ?_
  cases ensured with
  | existing id => exact upholds_pure id
  | created id => exact upholds_bind (upholds_inheritRefs refers id _) fun _ => upholds_pure id

theorem upholds_typeOfDecl {decl : TypeDecl} (named : decl.name ≠ "") : Upholds Voiced (typeOfDecl ctx decl) := by
  have finish : ∀ id : TypeId, Upholds Voiced (do editType id (·.declare decl.modifiers); return id) := fun id =>
    upholds_bind (upholds_change refers (fun _ => .typeDeclared id decl.modifiers) (fun _ => rfl) fun _ => trivial)
      fun _ => upholds_pure id
  unfold typeOfDecl
  cases resolved : ctx.bindings.resolveType decl.binding decl with
  | resolved i b => exact upholds_bind (refers.bound i) finish
  | unresolved hint =>
    obtain rfl : hint = decl := Java.BindingTable.resolveIn_hint resolved
    exact upholds_bind (upholds_typeOfUnboundDecl refers named) finish

theorem upholds_anonymousContainer : Upholds Voiced anonymousContainer := by
  refine upholds_bind (upholds_containerOrUnknown refers) fun c => ?_
  cases c with
  | ns | type => exact upholds_pure _
  | method id =>
    refine upholds_bind upholds_get fun d => ?_
    cases d.repository.method? id <;> exact upholds_pure _

theorem upholds_typeOfAnonymous (a : AnonymousClass) (t : TypeRef) : Upholds Voiced (typeOfAnonymous ctx a t) := by
  refine upholds_bind (upholds_anonymousContainer refers) fun c => upholds_bind upholds_get fun d => ?_
  refine upholds_bind (upholds_internType ?_ _ c _) fun ensured => ?_
  · exact fun unnamed => by simpa using congrArg String.toList unnamed
  cases ensured with
  | existing id => exact upholds_pure id
  | created id =>
    exact upholds_bind (upholds_change refers (fun _ => .typeOpened id) (fun _ => rfl) fun _ => trivial) fun _ =>
      upholds_bind (upholds_inheritRef refers id t) fun _ => upholds_pure id

/-- No mark takes the names from the types, if the types that are declared have names. -/
theorem voiced_act {d : Draft} {m : Mark} (named : m.Fits .names) (voiced : Voiced d) : Voiced (m.act ctx d) := by
  refine Voiced.rescope (d := (m.prepare ctx d).2) ?_ _
  have any : ∀ t : TypeRef, t.Admitted fun _ => True := fun _ _ _ => trivial
  cases m with
  | package name => exact upholds_ensureNamespace refers name d voiced
  | type decl => exact upholds_typeOfDecl refers (named trivial) d voiced
  | anonymous a t => exact upholds_typeOfAnonymous refers a t d voiced
  | method decl => exact upholds_methodWithParameters refers (fun t _ => any t) (fun q _ => any q.type) d voiced
  | initializer decl => exact upholds_initializerMethod refers decl d voiced
  | close => exact voiced
  | field fragment decl => exact upholds_attributeOfFragment refers fragment (any decl.type) d voiced
  | localVariable fragment t => exact upholds_localVariable refers fragment (any t) d voiced
  | call e => exact upholds_invokeExpr refers e d voiced
  | mention identifier binding assigned => exact upholds_mention refers (.name identifier binding) assigned d voiced

end Visits

end Draft

end Famix
