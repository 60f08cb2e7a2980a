import Famix.Draft.Operation
import Famix.Proofs.Resolution

/-!
What a construction can do to a draft. Whatever is built is built by a few kinds of changes, and every operation
is a path of them. A change that overwrites is made only to an element that the operation itself has created; this
is said relative to the draft in which the operation began.
-/
namespace Famix

structure Registry.Extends (r s : Registry) : Prop where
  namespaces : r.namespaces.Extends s.namespaces
  types : r.types.Extends s.types
  methods : r.methods.Extends s.methods
  attributes : r.attributes.Extends s.attributes
  parameters : r.parameters.Extends s.parameters

theorem Registry.Extends.refl (r : Registry) : r.Extends r := ⟨.refl _, .refl _, .refl _, .refl _, .refl _⟩

theorem Registry.Extends.trans {r s t : Registry} (h : r.Extends s) (k : s.Extends t) : r.Extends t :=
  ⟨h.namespaces.trans k.namespaces, h.types.trans k.types, h.methods.trans k.methods,
    h.attributes.trans k.attributes, h.parameters.trans k.parameters⟩

/-- One change to the repository and the names of a draft. -/
inductive Change where
  | space (name : String)
  | type (key name : String) (container : Container) (kind : TypeKind)
  | method (key name : String) (parent : TypeId) (signature : String) (isConstructor : Bool)
  | initializer (parent : TypeId) (modifiers : ModifierSet)
  | field (key name : String) (parent declared : TypeId)
  | parameter (key name : String) (parent : MethodId) (declared : TypeId)
  | localVariable (name : String) (parent : Option MethodId) (declared : TypeId)
  | inheritance (subclass superclass : TypeId)
  | invocation (sender : Option MethodId) (candidate : MethodId) (signature : String)
  | access (accessor : Option MethodId) (target : Option VariableRef)
  /-- gives a new type the modifiers of its binding -/
  | typeModifiers (id : TypeId) (modifiers : List Modifier)
  /-- gives a new type its kind when what it refers to is resolved -/
  | typeKind (id : TypeId) (kind : TypeKind)
  /-- makes a new type one that is no stub -/
  | typeOpened (id : TypeId)
  | typeDeclared (id : TypeId) (modifiers : List Modifier)
  /-- gives a new method what its binding says -/
  | methodBound (id : MethodId) (modifiers : List Modifier) (declared : Option TypeId)
  /-- gives a new method the type it returns -/
  | methodTyped (id : MethodId) (declared : Option TypeId)
  | methodDeclared (id : MethodId) (modifiers : List Modifier)
  | attributeDeclared (id : AttributeId) (modifiers : List Modifier)
  | written (id : AccessId)
  /-- remembers the unknown namespace or the unknown type -/
  | remember (u : Unknown)

namespace Change

def apply : Change → Draft → Draft
  | .space name, d => (Draft.ensureNamespace name d).2
  | .type key name container kind, d => (Draft.internType key name container kind d).2
  | .method key name parent signature isConstructor, d =>
    (Draft.internMethod key (.stub name) parent signature (Draft.methodKind isConstructor) d).2
  | .initializer parent modifiers, d =>
    d.edit fun r =>
      (r.insertMethod ⟨initializerName, false, modifiers⟩ parent initializerName .initializer none).2
  | .field key name parent declared, d => (Draft.internAttribute key (.stub name) parent declared d).2
  | .parameter key name parent declared, d =>
    (Draft.internParameter key { NamedEntity.stub name with isStub := false } parent declared d).2
  | .localVariable name parent declared, d =>
    d.edit fun r => (r.insertLocalVariable (.stub name) parent declared).2
  | .inheritance subclass superclass, d => d.edit fun r => (r.insertInheritance subclass superclass).2
  | .invocation sender candidate signature, d =>
    d.edit fun r => (r.insertInvocation sender [candidate] signature).2
  | .access accessor target, d => d.edit fun r => (r.insertAccess accessor target false).2
  | .typeModifiers id modifiers, d =>
    d.edit (·.updateType id fun t => { t with modifiers := .declared modifiers })
  | .typeKind id kind, d => d.edit (·.updateType id fun t => { t with kind })
  | .typeOpened id, d => d.edit (·.updateType id fun t => { t with isStub := false })
  | .typeDeclared id modifiers, d =>
    d.edit (·.updateType id fun t => { t with toNamedEntity := t.toNamedEntity.declare modifiers })
  | .methodBound id modifiers declared, d =>
    d.edit (·.updateMethod id fun m => { m with modifiers := .declared modifiers, declaredType := declared })
  | .methodTyped id declared, d => d.edit (·.updateMethod id fun m => { m with declaredType := declared })
  | .methodDeclared id modifiers, d =>
    d.edit (·.updateMethod id fun m => { m with toNamedEntity := m.toNamedEntity.declare modifiers })
  | .attributeDeclared id modifiers, d =>
    d.edit (·.updateAttribute id fun a =>
      { a with toNamedEntity := { a.toNamedEntity.enrich modifiers with isStub := true } })
  | .written id, d => d.edit (·.updateAccess id fun a => { a with isWrite := true })
  | .remember u, d => d.remember u

/-- Whether a change leaves alone what the elements of `base` were made with. -/
def New (base : Draft) : Change → Prop
  | .typeModifiers id _ | .typeKind id _ | .typeOpened id => base.repository.types.size ≤ id.index
  | .methodBound id _ _ | .methodTyped id _ => base.repository.methods.size ≤ id.index
  | .written _ => False
  | _ => True

/-- Whether a change is one that resolving bound types makes: it adds namespaces and types, and of the types it
touches only its own. -/
def Resolving (own : TypeId → Prop) : Change → Prop
  | .space _ | .type .. | .remember _ => True
  | .inheritance id _ | .typeModifiers id _ | .typeKind id _ => own id
  | _ => False

/-- The changes that are made for what the source refers to. -/
def Refers : Change → Prop
  | .space _ | .type .. | .method .. | .field .. | .inheritance .. => True
  | .typeModifiers .. | .typeKind .. | .methodBound .. | .remember _ => True
  | _ => False

/-- The changes that are made for what the source refers to or declares. What else there is comes from the bodies of
methods, and from initializers. -/
def Declares : Change → Prop
  | .initializer .. | .localVariable .. | .invocation .. | .access .. | .written _ => False
  | _ => True

/-- Whether a change marks nothing as declared. -/
def Quiet : Change → Prop
  | .initializer .. | .typeOpened _ | .typeDeclared .. | .methodDeclared .. => False
  | _ => True

theorem Refers.quiet {c : Change} (h : c.Refers) : c.Quiet := by
  cases c <;> first | exact h.elim | trivial

theorem Refers.declares {c : Change} (h : c.Refers) : c.Declares := by
  cases c <;> first | exact h.elim | trivial

theorem Resolving.refers {own : TypeId → Prop} {c : Change} (h : c.Resolving own) : c.Refers := by
  cases c <;> first | exact h.elim | trivial

theorem Resolving.mono {own wider : TypeId → Prop} {c : Change} (h : c.Resolving own)
    (imp : ∀ id, own id → wider id) : c.Resolving wider := by
  cases c <;> first | exact imp _ h | exact h

theorem Resolving.new {own : TypeId → Prop} {base : Draft} {c : Change} (h : c.Resolving own)
    (new : ∀ id, own id → base.repository.types.size ≤ id.index) : c.New base := by
  cases c <;> first | exact new _ h | exact h | trivial

theorem apply_scope (c : Change) (d : Draft) : (c.apply d).scope = d.scope := by
  cases c <;> rfl

def interns : Change → Bool
  | .space _ | .type .. | .method .. | .field .. | .parameter .. => true
  | _ => false

/-- What a change comes to. One that interns does nothing if the key is known. -/
inductive Result (d : Draft) : Change → Draft → Prop where
  | known (c : Change) : Result d c d
  | space {name : String} (fresh : d.registry.namespaces.get? name = none) :
      Result d (.space name) (d.addNamespace name fresh)
  | type {key name : String} {container : Container} {kind : TypeKind} (fresh : d.registry.types.get? key = none) :
      Result d (.type key name container kind) (d.addType key name container kind fresh)
  | method {key name signature : String} {parent : TypeId} {isConstructor : Bool}
      (fresh : d.registry.methods.get? key = none) : Result d (.method key name parent signature isConstructor)
        (d.addMethod key (.stub name) parent signature (Draft.methodKind isConstructor))
  | field {key name : String} {parent declared : TypeId} (fresh : d.registry.attributes.get? key = none) :
      Result d (.field key name parent declared) (d.addAttribute key (.stub name) parent declared)
  | parameter {key name : String} {parent : MethodId} {declared : TypeId}
      (fresh : d.registry.parameters.get? key = none) : Result d (.parameter key name parent declared)
        (d.addParameter key { NamedEntity.stub name with isStub := false } parent declared)
  | direct (c : Change) (direct : c.interns = false) : Result d c (c.apply d)

theorem result (c : Change) (d : Draft) : Result d c (c.apply d) := by
  cases c with
  | space name =>
    cases known : d.registry.namespaces.get? name with
    | some id => rw [apply, Draft.ensureNamespace_of_some known]; exact .known _
    | none => rw [apply, Draft.ensureNamespace_of_none known]; exact .space known
  | type key name container kind =>
    cases known : d.registry.types.get? key with
    | some id => rw [apply, Draft.internType_of_some known]; exact .known _
    | none => rw [apply, Draft.internType_of_none known]; exact .type known
  | method key name parent signature isConstructor =>
    cases known : d.registry.methods.get? key with
    | some id => rw [apply, Draft.internMethod_of_some known]; exact .known _
    | none => rw [apply, Draft.internMethod_of_none known]; exact .method known
  | field key name parent declared =>
    cases known : d.registry.attributes.get? key with
    | some id => rw [apply, Draft.internAttribute_of_some known]; exact .known _
    | none => rw [apply, Draft.internAttribute_of_none known]; exact .field known
  | parameter key name parent declared =>
    cases known : d.registry.parameters.get? key with
    | some id => rw [apply, Draft.internParameter_of_some known]; exact .known _
    | none => rw [apply, Draft.internParameter_of_none known]; exact .parameter known
  | initializer | localVariable | inheritance | invocation | access | typeModifiers | typeKind | typeOpened
  | typeDeclared | methodBound | methodTyped | methodDeclared | attributeDeclared | written | remember =>
    exact .direct _ rfl

theorem registry_extends (c : Change) (d : Draft) : d.registry.Extends (c.apply d).registry := by
  have same := Registry.Extends.refl d.registry
  have result := c.result d
  generalize c.apply d = e at result ⊢
  cases result with
  | known => exact same
  | space fresh => exact { same with namespaces := Interner.extends_insert fresh _ }
  | type fresh => exact { same with types := Interner.extends_insert fresh _ }
  | method fresh => exact { same with methods := Interner.extends_insert fresh _ }
  | field fresh => exact { same with attributes := Interner.extends_insert fresh _ }
  | parameter fresh => exact { same with parameters := Interner.extends_insert fresh _ }
  | direct c direct =>
    cases c with
    | space | type | method | field | parameter => cases direct
    | _ => exact same

/-! Attributes and parameters are touched by few changes. -/

theorem attributes_cases (c : Change) (d : Draft) :
    (c.apply d).repository.attributes = d.repository.attributes ∨
      (∃ key name parent declared, c = field key name parent declared ∧
        (c.apply d).repository.attributes = d.repository.attributes.push
          { NamedEntity.stub name with
            id := ⟨d.repository.attributes.size⟩, parentType := parent, declaredType := declared }) ∨
      ∃ id modifiers, c = attributeDeclared id modifiers ∧
        (c.apply d).repository.attributes = d.repository.attributes.modify id.index fun a =>
          { a with toNamedEntity := { a.toNamedEntity.enrich modifiers with isStub := true } } := by
  have result := c.result d
  generalize c.apply d = e at result ⊢
  cases result with
  | field fresh => exact .inr (.inl ⟨_, _, _, _, rfl, rfl⟩)
  | known | space | type | method | parameter => exact .inl rfl
  | direct c direct =>
    cases c with
    | space | type | method | field | parameter => cases direct
    | attributeDeclared id modifiers => exact .inr (.inr ⟨id, modifiers, rfl, rfl⟩)
    | _ => exact .inl rfl

theorem parameters_cases (c : Change) (d : Draft) :
    (c.apply d).repository.parameters = d.repository.parameters ∨
      ∃ key name parent declared, c = parameter key name parent declared ∧
        (c.apply d).repository.parameters = d.repository.parameters.push
          { NamedEntity.stub name with
            isStub := false, id := ⟨d.repository.parameters.size⟩, parent, declaredType := declared } := by
  have result := c.result d
  generalize c.apply d = e at result ⊢
  cases result with
  | parameter fresh => exact .inr ⟨_, _, _, _, rfl, rfl⟩
  | known | space | type | method | field => exact .inl rfl
  | direct c direct =>
    cases c with
    | space | type | method | field | parameter => cases direct
    | _ => exact .inl rfl

/-- Only an inheritance of its own gives a type another supertype. -/
theorem supertypesOf_apply (c : Change) (d : Draft) (id : TypeId) (other : ∀ t, c ≠ inheritance id t) :
    (c.apply d).repository.supertypesOf id = d.repository.supertypesOf id := by
  have result := c.result d
  generalize c.apply d = e at result ⊢
  cases result with
  | known | space | type | method | field | parameter => rfl
  | direct c direct =>
    cases c with
    | space | type | method | field | parameter => cases direct
    | inheritance subclass superclass =>
      have apart : id ≠ subclass := by
        rintro rfl
        exact other superclass rfl
      change (d.repository.supertypesByType.file subclass superclass).of id = d.repository.supertypesByType.of id
      rw [Postings.of_file, if_neg apart, List.append_nil]
    | _ => rfl

end Change

/-- How many elements of a kind there are. -/
def Repository.count (r : Repository) : Kind → Nat
  | .ns => r.namespaces.size
  | .type => r.types.size
  | .method => r.methods.size
  | .attribute => r.attributes.size
  | .parameter => r.parameters.size
  | .localVariable => r.localVariables.size
  | .inheritance => r.inheritances.size
  | .invocation => r.invocations.size
  | .access => r.accesses.size

namespace Draft

/-- There are no fewer elements of any kind in `e`. -/
def Before (d e : Draft) : Prop := ∀ kind, d.repository.count kind ≤ e.repository.count kind

theorem Before.refl (d : Draft) : Before d d := fun _ => Nat.le_refl _

theorem Before.trans {d e f : Draft} (h : Before d e) (k : Before e f) : Before d f :=
  fun kind => Nat.le_trans (h kind) (k kind)

theorem Before.types {d e : Draft} (h : Before d e) : d.repository.types.size ≤ e.repository.types.size := h .type

theorem Before.methods {d e : Draft} (h : Before d e) : d.repository.methods.size ≤ e.repository.methods.size :=
  h .method

theorem before_change (c : Change) (d : Draft) : Before d (c.apply d) := by
  have result := c.result d
  generalize c.apply d = e at result ⊢
  intro kind
  cases result with
  | known => exact Nat.le_refl _
  | space fresh => cases kind <;> simp [Repository.count, addNamespace, Repository.insertNamespace]
  | type fresh => cases kind <;> simp [Repository.count, addType, Repository.insertType]
  | method fresh => cases kind <;> simp [Repository.count, addMethod, Repository.insertMethod]
  | field fresh => cases kind <;> simp [Repository.count, addAttribute, Repository.insertAttribute]
  | parameter fresh => cases kind <;> simp [Repository.count, addParameter, Repository.insertParameter]
  | direct c direct =>
    cases c with
    | space | type | method | field | parameter => cases direct
    | initializer => cases kind <;> simp [Repository.count, Change.apply, edit, Repository.insertMethod]
    | localVariable => cases kind <;> simp [Repository.count, Change.apply, edit, Repository.insertLocalVariable]
    | inheritance => cases kind <;> simp [Repository.count, Change.apply, edit, Repository.insertInheritance]
    | invocation => cases kind <;> simp [Repository.count, Change.apply, edit, Repository.insertInvocation]
    | access => cases kind <;> simp [Repository.count, Change.apply, edit, Repository.insertAccess]
    | typeModifiers | typeKind | typeOpened | typeDeclared =>
      cases kind <;> simp [Repository.count, Change.apply, edit, Repository.updateType]
    | methodBound | methodTyped | methodDeclared =>
      cases kind <;> simp [Repository.count, Change.apply, edit, Repository.updateMethod]
    | attributeDeclared => cases kind <;> simp [Repository.count, Change.apply, edit, Repository.updateAttribute]
    | written => cases kind <;> simp [Repository.count, Change.apply, edit, Repository.updateAccess]
    | remember => exact Nat.le_refl _

/-- A draft is reached from `d` by changes that are all allowed. -/
inductive Path (allowed : Change → Prop) (d : Draft) : Draft → Prop where
  | refl : Path allowed d d
  | step {e : Draft} (path : Path allowed d e) (c : Change) (ok : allowed c) : Path allowed d (c.apply e)

namespace Path

variable {allowed : Change → Prop} {d e f : Draft}

theorem single (c : Change) (ok : allowed c) : Path allowed d (c.apply d) := .step .refl c ok

theorem trans (h : Path allowed d e) (k : Path allowed e f) : Path allowed d f := by
  induction k with
  | refl => exact h
  | step _ c ok ih => exact .step ih c ok

theorem mono {wider : Change → Prop} (h : Path allowed d e) (imp : ∀ c, allowed c → wider c) :
    Path wider d e := by
  induction h with
  | refl => exact .refl
  | step _ c ok ih => exact .step ih c (imp c ok)

theorem before (h : Path allowed d e) : Before d e := by
  induction h with
  | refl => exact .refl d
  | step _ c _ ih => exact ih.trans (before_change c _)

theorem registry_extends (h : Path allowed d e) : d.registry.Extends e.registry := by
  induction h with
  | refl => exact .refl _
  | step _ c _ ih => exact ih.trans (c.registry_extends _)

theorem invariant {P : Draft → Prop} (h : Path allowed d e) (start : P d)
    (keep : ∀ c e, allowed c → P e → P (c.apply e)) : P e := by
  induction h with
  | refl => exact start
  | step _ c ok ih => exact keep c _ ok ih

end Path

/-! Resolution is a path of resolving changes. -/

theorem unknownNamespace_path {own : TypeId → Prop} (d : Draft) :
    Path (Change.Resolving own) d (unknownNamespace d).2 := by
  rw [unknownNamespace_eq]
  exact .step (.single (.space unknownName) trivial) (.remember .space) trivial

theorem unknownTypeNamed_path {own : TypeId → Prop} (name : String) (d : Draft) :
    Path (Change.Resolving own) d (unknownTypeNamed name d).2 :=
  (unknownNamespace_path d).step
    (.type (unknownKey name) name (.ns (unknownNamespace d).1) .unknown) trivial

theorem unknownType_path {own : TypeId → Prop} (d : Draft) :
    Path (Change.Resolving own) d (unknownType d).2 := by
  rw [unknownType_eq]
  exact (unknownTypeNamed_path unknownName d).step (.remember .type) trivial

theorem ensureTypeParameters_path {own : TypeId → Prop} (owner : TypeId) (key : String) (names : List String)
    (d : Draft) : Path (Change.Resolving own) d (ensureTypeParameters owner key names d).draft := by
  induction names generalizing d with
  | nil => exact .refl
  | cons name names ih =>
    exact .trans (.single (.type (key ++ "." ++ name) name (.type owner) .typeParameter) trivial) (ih _)

def Task.subject : Task → Option TypeId
  | .link id _ | .complete _ id => some id
  | _ => none

/-- The types that a task may touch when it is begun in `d`. -/
def Task.Owns (d : Draft) (task : Task) (id : TypeId) : Prop :=
  task.subject = some id ∨ d.repository.types.size ≤ id.index

/-- What is done on the way to `e` for a part of a task is done for the task. -/
theorem Path.within {task part : Task} {d e f : Draft} (h : Path (Change.Resolving (part.Owns e)) e f)
    (before : Before d e) (subject : ∀ id, part.subject = some id → task.Owns d id) :
    Path (Change.Resolving (task.Owns d)) e f := by
  refine h.mono fun c ok => ok.mono fun id owns => ?_
  rcases owns with same | new
  · exact subject id same
  · exact .inr (Nat.le_trans before.types new)

theorem Resolves.path {table : Java.BindingTable} {task : Task} {d e : Draft} {found : Found}
    (run : Resolves table task d found e) : Path (Change.Resolving (task.Owns d)) d e := by
  induction run with
  | inside _ _ ih => exact ih
  | beyond => exact unknownType_path _
  | finished => exact .refl
  | next _ _ ihFirst ihOthers => exact ihFirst.trans (ihOthers.within ihFirst.before nofun)
  | unlinked => exact .refl
  | @link s id i is d e f _ _ ihFirst ihOthers =>
    have first : Path (Change.Resolving (Task.Owns d (.link s (i :: is)))) d e := ihFirst.within (.refl d) nofun
    have linked := first.step (.inheritance s id) (.inl rfl)
    exact linked.trans (ihOthers.within linked.before fun _ same => .inl same)
  | enclosed _ _ _ ih => exact ih
  | free => exact .single (.space _) trivial
  | @parameterized b id _ _ d e f _ _ _ ihErased ihApplied =>
    have erased : Path (Change.Resolving (Task.Owns d (.complete b id))) d e := ihErased.within (.refl d) nofun
    exact (erased.trans (ihApplied.within erased.before nofun)).step (.typeKind id _) (.inl rfl)
  | @generic b id d _ => exact (ensureTypeParameters_path id _ _ d).step (.typeKind id _) (.inl rfl)
  | plain => exact .refl
  | known => exact .refl
  | met _ _ _ ihPlace => exact ihPlace
  | @made b c d e f g _ _ _ _ _ ihPlace ihLinks ihCompletion =>
    have new : d.repository.types.size ≤ e.repository.types.size := ihPlace.before.types
    have begun := (ihPlace.step (.type (typeKey table b) b.name c (kindOf b)) trivial).step
      (.typeModifiers ⟨e.repository.types.size⟩ b.modifiers) (.inr new)
    have linked := begun.trans (ihLinks.within begun.before fun id same => .inr (Option.some.inj same ▸ new))
    exact linked.trans (ihCompletion.within linked.before fun id same => .inr (Option.some.inj same ▸ new))

/-- A step of a construction is a path of changes to elements that it creates, and of enrichments. -/
def Builds (f : Drafting α) : Prop :=
  ∀ base d, Before base d → Path (Change.New base) d (f d).2

/-- A step that builds, and makes no changes but those of some kinds. -/
def BuildsOnly (kinds : Change → Prop) (f : Drafting α) : Prop :=
  ∀ base d, Before base d → Path (fun c => c.New base ∧ kinds c) d (f d).2

section Rules

variable {kinds wider : Change → Prop}

theorem BuildsOnly.builds {f : Drafting α} (h : BuildsOnly kinds f) : Builds f :=
  fun base d before => (h base d before).mono fun _ ok => ok.1

theorem BuildsOnly.mono {f : Drafting α} (h : BuildsOnly kinds f) (imp : ∀ c, kinds c → wider c) :
    BuildsOnly wider f :=
  fun base d before => (h base d before).mono fun c ok => ⟨ok.1, imp c ok.2⟩

theorem BuildsOnly.declares {f : Drafting α} (h : BuildsOnly Change.Refers f) : BuildsOnly Change.Declares f :=
  h.mono fun _ => Change.Refers.declares

theorem BuildsOnly.quiet {f : Drafting α} (h : BuildsOnly Change.Refers f) : BuildsOnly Change.Quiet f :=
  h.mono fun _ => Change.Refers.quiet

theorem BuildsOnly.any {f : Drafting α} (h : BuildsOnly kinds f) : BuildsOnly (fun _ => True) f :=
  h.mono fun _ _ => trivial

theorem BuildsOnly.path {f : Drafting α} (h : BuildsOnly kinds f) (d : Draft) : Path kinds d (f d).2 :=
  (h d d (.refl d)).mono fun _ ok => ok.2

theorem builds_pure (a : α) : BuildsOnly kinds (pure a) := fun _ _ _ => .refl

theorem builds_get : BuildsOnly kinds (get : Drafting Draft) := fun _ _ _ => .refl

theorem builds_bind {x : Drafting α} {f : α → Drafting β} (hx : BuildsOnly kinds x)
    (hf : ∀ a, BuildsOnly kinds (f a)) : BuildsOnly kinds (x >>= f) := by
  intro base d before
  have first := hx base d before
  exact first.trans (hf (x d).1 base (x d).2 (before.trans first.before))

theorem builds_map {x : Drafting α} {f : α → β} (hx : BuildsOnly kinds x) : BuildsOnly kinds (f <$> x) :=
  fun base d before => hx base d before

theorem builds_change {f : Drafting α} (c : Draft → Change) (makes : ∀ d, (f d).2 = (c d).apply d)
    (allowed : ∀ base d, (c d).New base ∧ kinds (c d)) : BuildsOnly kinds f := by
  intro base d _
  rw [makes d]
  exact .single (c d) (allowed base d)

end Rules

open Change (Refers Declares Quiet)

/-- A step that resolves and touches no type of its own. -/
theorem builds_resolving {f : Drafting α} (path : ∀ d, Path (Change.Resolving fun _ => False) d (f d).2) :
    BuildsOnly Refers f :=
  fun _ d _ => (path d).mono fun _ ok => ⟨ok.new nofun, ok.refers⟩

theorem builds_unknownNamespace : BuildsOnly Refers unknownNamespace := builds_resolving unknownNamespace_path

theorem builds_unknownTypeNamed (name : String) : BuildsOnly Refers (unknownTypeNamed name) :=
  builds_resolving (unknownTypeNamed_path name)

theorem builds_unknownType : BuildsOnly Refers unknownType := builds_resolving unknownType_path

variable (ctx : Context)

theorem builds_typeOfBinding (i : Java.TypeIndex) : BuildsOnly Refers (typeOfBinding ctx i) := by
  intro base d before
  refine (resolveIndex_runs ctx.bindings i d).path.mono fun c ok => ⟨ok.new fun id owns => ?_, ok.refers⟩
  rcases owns with same | new
  · cases same
  · exact Nat.le_trans before.types new

theorem builds_typeOfBinding? (i : Option Java.TypeIndex) : BuildsOnly Refers (typeOfBinding? ctx i) := by
  cases i with
  | none => exact builds_unknownType
  | some i => exact builds_typeOfBinding ctx i

theorem builds_typeOfExpr (t : Java.TypeExpr) : BuildsOnly Refers (typeOfExpr t) := by
  unfold typeOfExpr
  split
  · exact builds_unknownTypeNamed _
  · exact builds_unknownType

theorem builds_typeOfRef (t : Java.TypeRef) : BuildsOnly Refers (typeOfRef ctx t) := by
  unfold typeOfRef
  split
  · exact builds_typeOfBinding ctx _
  · exact builds_typeOfExpr _

theorem builds_ownerOrUnknown : BuildsOnly Refers ownerOrUnknown := by
  refine builds_bind builds_get fun d => ?_
  split
  · exact builds_pure _
  · exact builds_unknownType

theorem builds_inherit (subclass superclass : TypeId) : BuildsOnly Refers (inherit subclass superclass) :=
  builds_change (fun _ => .inheritance subclass superclass) (fun _ => rfl) fun _ _ => ⟨trivial, trivial⟩

theorem builds_inheritBinding (subclass : TypeId) (i : Java.TypeIndex) :
    BuildsOnly Refers (inheritBinding ctx subclass i) :=
  builds_bind (builds_typeOfBinding ctx i) fun _ => builds_inherit subclass _

theorem builds_inheritRef (subclass : TypeId) (t : Java.TypeRef) : BuildsOnly Refers (inheritRef ctx subclass t) :=
  builds_bind (builds_typeOfRef ctx t) fun _ => builds_inherit subclass _

theorem builds_inheritRefs (subclass : TypeId) (ts : List Java.TypeRef) :
    BuildsOnly Refers (inheritRefs ctx subclass ts) := by
  induction ts with
  | nil => exact builds_pure ()
  | cons t ts ih => exact builds_bind (builds_inheritRef ctx subclass t) fun _ => ih

theorem builds_ensureNamespace (name : String) : BuildsOnly Refers (ensureNamespace name) :=
  builds_change (fun _ => .space name) (fun _ => rfl) fun _ _ => ⟨trivial, trivial⟩

theorem builds_internType (key name : String) (c : Container) (kind : TypeKind) :
    BuildsOnly Refers (internType key name c kind) :=
  builds_change (fun _ => .type key name c kind) (fun _ => rfl) fun _ _ => ⟨trivial, trivial⟩

theorem builds_containerOrUnknown : BuildsOnly Refers containerOrUnknown := by
  refine builds_bind builds_get fun d => ?_
  split
  · exact builds_pure _
  · exact builds_bind builds_unknownNamespace fun _ => builds_pure _

theorem builds_typeOfUnboundDecl (decl : Java.TypeDecl) : BuildsOnly Refers (typeOfUnboundDecl ctx decl) := by
  refine builds_bind builds_containerOrUnknown fun c => builds_bind builds_get fun d => ?_
  refine builds_bind (builds_internType _ _ _ _) fun ensured => ?_
  cases ensured with
  | existing id => exact builds_pure id
  | created id => exact builds_bind (builds_inheritRefs ctx id _) fun _ => builds_pure id

theorem builds_typeOfDecl (decl : Java.TypeDecl) : BuildsOnly Declares (typeOfDecl ctx decl) := by
  have finish : ∀ id, BuildsOnly Declares (do editType id (·.declare decl.modifiers); return id) := fun id =>
    builds_bind (builds_change (fun _ => .typeDeclared id decl.modifiers) (fun _ => rfl) fun _ _ => ⟨trivial, trivial⟩)
      fun _ => builds_pure id
  unfold typeOfDecl
  split
  · exact builds_bind (builds_typeOfBinding ctx _).declares finish
  · exact builds_bind (builds_typeOfUnboundDecl ctx _).declares finish

theorem builds_anonymousContainer : BuildsOnly Refers anonymousContainer := by
  refine builds_bind builds_containerOrUnknown fun c => ?_
  cases c with
  | ns id => exact builds_pure _
  | type id => exact builds_pure _
  | method id =>
    refine builds_bind builds_get fun d => ?_
    split
    · exact builds_pure _
    · exact builds_pure _

/-- What follows the interning of a type may overwrite the type if it was created just now. -/
theorem builds_internType_bind {key name : String} {c : Container} {kind : TypeKind}
    {f : Ensured .type → Drafting α} (existing : ∀ id, BuildsOnly Declares (f (.existing id)))
    (created : ∀ base d id, Before base d → base.repository.types.size ≤ id.index →
      Path (fun c => c.New base ∧ c.Declares) d (f (.created id) d).2) :
    BuildsOnly Declares (internType key name c kind >>= f) := by
  intro base d before
  change Path _ d (f (internType key name c kind d).1 (internType key name c kind d).2).2
  have interned := (builds_internType key name c kind).declares base d before
  cases made : (internType key name c kind d).1 with
  | existing id => exact interned.trans (existing id base _ (before.trans interned.before))
  | created id =>
    obtain ⟨-, rfl⟩ := internType_created made
    exact interned.trans (created base _ _ (before.trans interned.before) before.types)

theorem builds_internMethod_bind {kinds : Change → Prop} {key name signature : String} {parent : TypeId}
    {isConstructor : Bool} {f : Ensured .method → Drafting α} (refers : ∀ c, Refers c → kinds c)
    (existing : ∀ id, BuildsOnly kinds (f (.existing id)))
    (created : ∀ base d id, Before base d → base.repository.methods.size ≤ id.index →
      Path (fun c => c.New base ∧ kinds c) d (f (.created id) d).2) :
    BuildsOnly kinds (internMethod key (.stub name) parent signature (methodKind isConstructor) >>= f) := by
  intro base d before
  cases known : d.registry.methods.get? key with
  | some id =>
    have same : (internMethod key (.stub name) parent signature (methodKind isConstructor) >>= f) d =
        f (.existing id) d := by
      change f (internMethod key _ parent signature _ d).1 (internMethod key _ parent signature _ d).2 = _
      rw [internMethod_of_some known]
    rw [same]
    exact existing id base d before
  | none =>
    have interned : Path (fun c => c.New base ∧ kinds c) d (internMethod key (.stub name) parent signature
        (methodKind isConstructor) d).2 :=
      .single (.method key name parent signature isConstructor) ⟨trivial, refers _ trivial⟩
    have made : (internMethod key (.stub name) parent signature (methodKind isConstructor) d).1 =
        .created ⟨d.repository.methods.size⟩ := congrArg Prod.fst (internMethod_of_none known)
    change Path _ d (f (internMethod key _ parent signature _ d).1 (internMethod key _ parent signature _ d).2).2
    rw [made]
    exact interned.trans (created base _ _ (before.trans interned.before) before.methods)

theorem builds_typeOfAnonymous (anonymous : Java.AnonymousClass) (t : Java.TypeRef) :
    BuildsOnly Declares (typeOfAnonymous ctx anonymous t) := by
  refine builds_bind builds_anonymousContainer.declares fun c => builds_bind builds_get fun d => ?_
  refine builds_internType_bind (fun id => builds_pure id) fun base d id before new => ?_
  have opened : Path (fun c => c.New base ∧ c.Declares) d ((Change.typeOpened id).apply d) :=
    .single (.typeOpened id) ⟨new, trivial⟩
  exact opened.trans ((builds_inheritRef ctx id t).declares base _ (before.trans opened.before))

theorem builds_memberKey (owner : TypeId) (name : String) : BuildsOnly Refers (memberKey owner name) :=
  builds_bind builds_get fun _ => builds_pure _

theorem builds_unresolvedMethod (signature : String) : BuildsOnly Refers (unresolvedMethod signature) :=
  builds_bind builds_unknownType fun owner => builds_bind (builds_memberKey owner signature) fun key =>
    builds_bind (builds_change (fun _ => .method key _ owner signature false) (fun _ => rfl)
      fun _ _ => ⟨trivial, trivial⟩) fun _ => builds_pure _

theorem builds_returnedType (b : Java.MethodBinding) : BuildsOnly Refers (returnedType ctx b) := by
  unfold returnedType
  split
  · exact builds_pure none
  · split
    · split
      · exact builds_pure none
      · exact builds_map (builds_typeOfBinding ctx _)
    · exact builds_pure none

theorem builds_methodOfResolved (b : Java.MethodBinding) (owner : TypeId) :
    BuildsOnly Refers (methodOfResolved ctx b owner) := by
  refine builds_bind (builds_memberKey owner _) fun key => ?_
  refine builds_internMethod_bind (fun _ => id) (fun id => builds_pure id) fun base d id before new => ?_
  have returned := builds_returnedType ctx b base d before
  exact returned.step (.methodBound id b.modifiers (returnedType ctx b d).1) ⟨new, trivial⟩

theorem builds_methodOfBinding (i : Java.MethodIndex) : BuildsOnly Refers (methodOfBinding ctx i) := by
  unfold methodOfBinding
  split
  · exact builds_unresolvedMethod _
  · exact builds_bind (builds_typeOfBinding? ctx _) fun owner => builds_methodOfResolved ctx _ owner

theorem builds_methodOfUnboundDecl (decl : Java.MethodDecl) (owner : TypeId) :
    BuildsOnly (fun c => c.Declares ∧ c.Quiet) (methodOfUnboundDecl ctx decl owner) := by
  have refers : ∀ c : Change, c.Refers → c.Declares ∧ c.Quiet := fun _ ok => ⟨ok.declares, ok.quiet⟩
  refine builds_bind ((builds_memberKey owner _).mono refers) fun key => ?_
  refine builds_internMethod_bind refers (fun id => builds_pure id) fun base d id before new => ?_
  dsimp only
  cases decl.returnType with
  | none => exact .single (.methodTyped id none) ⟨new, trivial, trivial⟩
  | some t =>
    dsimp only
    split
    · exact .single (.methodTyped id none) ⟨new, trivial, trivial⟩
    · exact ((builds_typeOfRef ctx t).mono refers base d before).step
        (.methodTyped id (some (typeOfRef ctx t d).1)) ⟨new, trivial, trivial⟩

theorem builds_methodOfDecl (decl : Java.MethodDecl) : BuildsOnly Declares (methodOfDecl ctx decl) := by
  have finish : ∀ id, BuildsOnly Declares (do
      modify (edit (·.updateMethod id fun m =>
        { m with toNamedEntity := m.toNamedEntity.declare decl.modifiers }))
      return id) := fun id =>
    builds_bind (builds_change (fun _ => .methodDeclared id decl.modifiers) (fun _ => rfl)
      fun _ _ => ⟨trivial, trivial⟩) fun _ => builds_pure id
  refine builds_bind builds_ownerOrUnknown.declares fun owner => ?_
  dsimp only
  split
  · exact builds_bind (builds_methodOfResolved ctx _ owner).declares finish
  · exact builds_bind ((builds_methodOfUnboundDecl ctx _ owner).mono fun _ ok => ok.1) finish

theorem builds_initializerMethod (decl : Java.InitializerDecl) :
    BuildsOnly (fun _ => True) (initializerMethod decl) :=
  builds_bind builds_ownerOrUnknown.any fun owner =>
    builds_change (fun _ => .initializer owner _) (fun _ => rfl) fun _ _ => ⟨trivial, trivial⟩

theorem builds_parameterOfDecl (decl : Java.ParameterDecl) (method : MethodId) :
    BuildsOnly (fun c => c.Declares ∧ c.Quiet) (parameterOfDecl ctx decl method) := by
  refine builds_bind builds_get fun d => ?_
  dsimp only
  split
  · exact builds_pure _
  · refine builds_bind ((builds_typeOfRef ctx decl.type).mono fun _ ok => ⟨ok.declares, ok.quiet⟩) fun declared => ?_
    exact builds_change (fun _ => .parameter _ decl.name method declared) (fun _ => rfl)
      fun _ _ => ⟨trivial, trivial, trivial⟩

/-- What is left to do for a bound field once its parent is known. -/
def attributeWithin (b : Java.VariableBinding) (parent : TypeId) : Drafting AttributeId := do
  let key ← memberKey parent b.name
  ((← get).registry.attributes.get? key).elim
    (do
      let declared ← typeOfBinding? ctx b.type
      internAttribute key (.stub b.name) parent declared)
    pure

theorem attributeOfBinding_eq (b : Java.VariableBinding) : attributeOfBinding ctx b =
    b.declaringClass.elim ownerOrUnknown (typeOfBinding ctx) >>= attributeWithin ctx b := by
  unfold attributeOfBinding
  cases b.declaringClass
  all_goals
    refine bind_congr fun parent => bind_congr fun key => bind_congr fun d => ?_
    cases d.registry.attributes.get? key <;> rfl

theorem builds_attributeWithin (b : Java.VariableBinding) (parent : TypeId) :
    BuildsOnly Refers (attributeWithin ctx b parent) := by
  refine builds_bind (builds_memberKey parent b.name) fun key => builds_bind builds_get fun d => ?_
  cases d.registry.attributes.get? key with
  | some id => exact builds_pure id
  | none =>
    exact builds_bind (builds_typeOfBinding? ctx b.type) fun declared =>
      builds_change (fun _ => .field key b.name parent declared) (fun _ => rfl) fun _ _ => ⟨trivial, trivial⟩

theorem builds_attributeOfBinding (b : Java.VariableBinding) : BuildsOnly Refers (attributeOfBinding ctx b) := by
  rw [attributeOfBinding_eq]
  refine builds_bind ?_ (builds_attributeWithin ctx b)
  cases b.declaringClass with
  | some i => exact builds_typeOfBinding ctx i
  | none => exact builds_ownerOrUnknown

theorem builds_attributeOfUnbound (fragment : Java.Fragment) (field : Java.FieldDecl) :
    BuildsOnly Refers (attributeOfUnbound ctx fragment field) := by
  refine builds_bind builds_ownerOrUnknown fun parent => builds_bind builds_get fun d => ?_
  refine builds_bind builds_get fun e => ?_
  split
  · exact builds_pure _
  · exact builds_bind (builds_typeOfRef ctx field.type) fun declared =>
      builds_change (fun _ => .field _ fragment.name parent declared) (fun _ => rfl) fun _ _ => ⟨trivial, trivial⟩

theorem builds_attributeOfFragment (fragment : Java.Fragment) (field : Java.FieldDecl) :
    BuildsOnly (fun c => c.Declares ∧ c.Quiet) (attributeOfFragment ctx fragment field) := by
  have refers : ∀ c : Change, c.Refers → c.Declares ∧ c.Quiet := fun _ ok => ⟨ok.declares, ok.quiet⟩
  have finish : ∀ (modifiers : List Modifier) (id : AttributeId), BuildsOnly (fun c => c.Declares ∧ c.Quiet) (do
      modify (edit (·.updateAttribute id fun a =>
        { a with toNamedEntity := { a.toNamedEntity.enrich modifiers with isStub := true } }))
      return id) := fun modifiers id =>
    builds_bind (builds_change (fun _ => .attributeDeclared id modifiers) (fun _ => rfl)
      fun _ _ => ⟨trivial, trivial, trivial⟩) fun _ => builds_pure id
  unfold attributeOfFragment
  dsimp only
  cases fieldBinding? ctx fragment with
  | some b => exact builds_bind ((builds_attributeOfBinding ctx b).mono refers) (finish b.modifiers)
  | none => exact builds_bind ((builds_attributeOfUnbound ctx fragment field).mono refers) (finish field.modifiers)

theorem builds_currentMethod : BuildsOnly Refers currentMethod := builds_bind builds_get fun _ => builds_pure _

theorem builds_localVariable (fragment : Java.Fragment) (t : Java.TypeRef) :
    BuildsOnly Quiet (localVariable ctx fragment t) :=
  builds_bind (builds_typeOfRef ctx t).quiet fun declared => builds_bind builds_currentMethod.quiet fun parent =>
    builds_change (fun _ => .localVariable fragment.name parent declared) (fun _ => rfl) fun _ _ => ⟨trivial, trivial⟩

theorem builds_invoke (binding : Option Java.MethodIndex) (signature : String) :
    BuildsOnly Quiet (invoke ctx binding signature) := by
  have finish : ∀ candidate, BuildsOnly Quiet (do
      let sender ← currentMethod
      insert (Repository.insertInvocation sender [candidate] signature)) := fun candidate =>
    builds_bind builds_currentMethod.quiet fun sender =>
      builds_change (fun _ => .invocation sender candidate signature) (fun _ => rfl) fun _ _ => ⟨trivial, trivial⟩
  unfold invoke
  dsimp only
  split
  · exact builds_bind (builds_methodOfBinding ctx _).quiet finish
  · exact builds_bind (builds_unresolvedMethod _).quiet finish

theorem builds_invokeExpr (e : Java.Expr) : BuildsOnly Quiet (invokeExpr ctx e) := by
  unfold invokeExpr
  split
  · exact builds_pure none
  · exact builds_map (builds_invoke ctx _ _)

theorem builds_variableOfBinding (b : Java.VariableBinding) : BuildsOnly Refers (variableOfBinding ctx b) := by
  unfold variableOfBinding
  split
  · exact builds_bind (builds_attributeOfBinding ctx b) fun _ => builds_pure _
  · exact builds_bind builds_get fun _ => builds_pure _
  · exact builds_pure none

theorem builds_access (target : Option VariableRef) : BuildsOnly Quiet (access target) :=
  builds_bind builds_currentMethod.quiet fun accessor =>
    builds_change (fun _ => .access accessor target) (fun _ => rfl) fun _ _ => ⟨trivial, trivial⟩

theorem builds_accessBinding (i : Java.VariableIndex) : BuildsOnly Quiet (accessBinding ctx i) := by
  unfold accessBinding
  dsimp only
  split
  · exact builds_bind (builds_variableOfBinding ctx _).quiet builds_access
  · exact builds_bind (builds_pure none) builds_access

theorem builds_accessExpr (e : Java.Expr) : BuildsOnly Quiet (accessExpr ctx e) := by
  unfold accessExpr
  split
  · exact builds_pure none
  · exact builds_bind (builds_variableOfBinding ctx _).quiet fun target =>
      builds_bind (builds_access target) fun _ => builds_pure _

theorem builds_variableOfExpr (e : Java.Expr) : BuildsOnly Refers (variableOfExpr ctx e) := by
  unfold variableOfExpr
  split
  · exact builds_pure none
  · exact builds_variableOfBinding ctx _

end Draft

namespace Operation

/-- The changes that an operation may make to a draft in which it begins. -/
def Makes (op : Operation) (d : Draft) (c : Change) : Prop :=
  c.New d ∨ ∃ id, op = .markWrite id ∧ c = .written id

/-- Every operation is a path of changes, after which the innermost container may be another. -/
theorem path (ctx : Context) (op : Operation) (d : Draft) :
    ∃ e, Draft.Path (op.Makes d) d e ∧ op.apply ctx d = { e with scope := (op.apply ctx d).scope } := by
  have built : ∀ {α : Type} {kinds : Change → Prop} {f : Drafting α} {g : α → Answer}, Draft.BuildsOnly kinds f →
      (op.perform ctx = do return g (← f)) → ∃ e, Draft.Path (op.Makes d) d e ∧
        op.apply ctx d = { e with scope := (op.apply ctx d).scope } := by
    intro α kinds f g builds performs
    have applied : op.apply ctx d = (f d).2 := by unfold apply; rw [performs]; rfl
    exact ⟨(f d).2, (builds.builds d d (.refl d)).mono fun _ => .inl, by rw [applied]⟩
  cases op with
  | enter c => exact ⟨d, .refl, rfl⟩
  | leave => exact ⟨d, .refl, rfl⟩
  | markWrite id => exact ⟨_, .single (.written id) (.inr ⟨id, rfl, rfl⟩), rfl⟩
  | currentMethod => exact built Draft.builds_currentMethod rfl
  | ownerType => exact ⟨d, .refl, rfl⟩
  | currentParameter name => exact ⟨d, .refl, rfl⟩
  | ensureNamespace name => exact built (Draft.builds_ensureNamespace name) rfl
  | unknownNamespace => exact built Draft.builds_unknownNamespace rfl
  | unknownType => exact built Draft.builds_unknownType rfl
  | typeOfBinding i => exact built (Draft.builds_typeOfBinding ctx i) rfl
  | typeOfRef t => exact built (Draft.builds_typeOfRef ctx t) rfl
  | typeOfExpr t => exact built (Draft.builds_typeOfExpr t) rfl
  | typeOfDecl decl => exact built (Draft.builds_typeOfDecl ctx decl) rfl
  | typeOfAnonymous anonymous t => exact built (Draft.builds_typeOfAnonymous ctx anonymous t) rfl
  | methodOfBinding i => exact built (Draft.builds_methodOfBinding ctx i) rfl
  | methodOfDecl decl => exact built (Draft.builds_methodOfDecl ctx decl) rfl
  | initializerMethod decl => exact built (Draft.builds_initializerMethod decl) rfl
  | unresolvedMethod signature => exact built (Draft.builds_unresolvedMethod signature) rfl
  | parameterOfDecl decl method => exact built (Draft.builds_parameterOfDecl ctx decl method) rfl
  | attributeOfFragment fragment field => exact built (Draft.builds_attributeOfFragment ctx fragment field) rfl
  | attributeOfBinding b => exact built (Draft.builds_attributeOfBinding ctx b) rfl
  | localVariable fragment t => exact built (Draft.builds_localVariable ctx fragment t) rfl
  | inherit subclass superclass => exact built (Draft.builds_inherit subclass superclass) rfl
  | inheritBinding subclass i => exact built (Draft.builds_inheritBinding ctx subclass i) rfl
  | inheritRef subclass t => exact built (Draft.builds_inheritRef ctx subclass t) rfl
  | invoke binding signature => exact built (Draft.builds_invoke ctx binding signature) rfl
  | invokeExpr e => exact built (Draft.builds_invokeExpr ctx e) rfl
  | accessBinding i => exact built (Draft.builds_accessBinding ctx i) rfl
  | accessExpr e => exact built (Draft.builds_accessExpr ctx e) rfl
  | variableOfExpr e => exact built (Draft.builds_variableOfExpr ctx e) rfl

/-- What no change of a draft breaks, and what does not depend on the open containers, holds after any history. -/
theorem applyAll_invariant {P : Draft → Prop} (ctx : Context) (keep : ∀ c d, P d → P (Change.apply c d))
    (unscoped : ∀ d scope, P d → P { d with scope }) (history : List Operation) (d : Draft) (start : P d) :
    P (applyAll ctx history d) := by
  induction history generalizing d with
  | nil => exact start
  | cons op rest ih =>
    rw [applyAll_cons]
    apply ih
    obtain ⟨e, path, same⟩ := op.path ctx d
    rw [same]
    exact unscoped e _ (path.invariant start fun c e _ => keep c e)

end Operation

end Famix
