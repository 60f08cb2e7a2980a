import Famix.Proofs.Portrait
import Famix.Proofs.Visit

/-!
Models without dangling references. Whatever an element of a built model refers to is there, so that no reference is
left out when the model is exported.
-/
namespace Famix

open Java (Project)

/-! The elements that an element refers to, itself included. -/

def NamespaceEntity.references (n : NamespaceEntity) : List Element := [n.id.element]

def TypeEntity.references (t : TypeEntity) : List Element :=
  t.id.element :: t.container.element :: t.kind.references.map (·.element)

def MethodEntity.references (m : MethodEntity) : List Element :=
  m.id.element :: m.parentType.element :: m.declaredType.toList.map (·.element)

def AttributeEntity.references (a : AttributeEntity) : List Element :=
  [a.id.element, a.parentType.element, a.declaredType.element]

def ParameterEntity.references (p : ParameterEntity) : List Element :=
  [p.id.element, p.parent.element, p.declaredType.element]

def LocalVariableEntity.references (v : LocalVariableEntity) : List Element :=
  v.id.element :: v.declaredType.element :: v.parent.toList.map (·.element)

def Inheritance.references (i : Inheritance) : List Element :=
  [i.id.element, i.subclass.element, i.superclass.element]

def Invocation.references (i : Invocation) : List Element :=
  i.id.element :: (i.candidates.map (·.element) ++ i.sender.toList.map (·.element))

def Access.references (a : Access) : List Element :=
  a.id.element :: (a.accessor.toList.map (·.element) ++ a.variableRef.toList.map (·.element))

theorem TypeEntity.references_kind (t : TypeEntity) (kind : TypeKind) {e : Element}
    (refers : e ∈ references { t with kind }) : e ∈ t.references ∨ e ∈ kind.references.map (·.element) := by
  simp only [references, List.mem_cons] at refers ⊢
  tauto

theorem MethodEntity.references_declared (m : MethodEntity) (entity : NamedEntity) (declaredType : Option TypeId)
    {e : Element} (refers : e ∈ references { m with toNamedEntity := entity, declaredType }) :
    e ∈ m.references ∨ e ∈ declaredType.toList.map (·.element) := by
  simp only [references, List.mem_cons] at refers ⊢
  tauto

def Insertion.references : Insertion → List Element
  | .ns _ => []
  | .type _ container kind => container.element :: kind.references.map (·.element)
  | .method _ parentType _ _ declaredType => parentType.element :: declaredType.toList.map (·.element)
  | .attribute _ parentType declaredType => [parentType.element, declaredType.element]
  | .parameter _ parent declaredType => [parent.element, declaredType.element]
  | .localVariable _ parent declaredType => declaredType.element :: parent.toList.map (·.element)
  | .inheritance subclass superclass => [subclass.element, superclass.element]
  | .invocation sender candidates _ => candidates.map (·.element) ++ sender.toList.map (·.element)
  | .access accessor variableRef _ => accessor.toList.map (·.element) ++ variableRef.toList.map (·.element)

theorem Change.references_of_insertion {c : Change} {i : Insertion} (insertion : c.insertion? = some i) :
    i.references = c.references := by
  cases c <;> cases insertion <;> rfl

namespace Repository

/-- What the items of a store refer to is there. -/
def Covers (r : Repository) (references : α → List Element) (xs : Array α) : Prop :=
  ∀ x ∈ xs, ∀ e ∈ references x, r.Holds e

/-- Whatever is filed is there, and so is what it is filed under. -/
def Posts [DecidableEq κ] (r : Repository) (key : κ → Element) (item : ι → Element) (p : Postings κ ι) : Prop :=
  ∀ k, ∀ i ∈ p.of k, r.Holds (key k) ∧ r.Holds (item i)

/-- Whatever is stored in `r` refers to what is there in `s`. -/
structure RefersInto (r s : Repository) : Prop where
  namespaces : s.Covers NamespaceEntity.references r.namespaces
  types : s.Covers TypeEntity.references r.types
  methods : s.Covers MethodEntity.references r.methods
  attributes : s.Covers AttributeEntity.references r.attributes
  parameters : s.Covers ParameterEntity.references r.parameters
  localVariables : s.Covers LocalVariableEntity.references r.localVariables
  inheritances : s.Covers Inheritance.references r.inheritances
  invocations : s.Covers Invocation.references r.invocations
  accesses : s.Covers Access.references r.accesses
  typesByContainer : s.Posts Container.element ElementId.element r.typesByContainer
  methodsByType : s.Posts ElementId.element ElementId.element r.methodsByType
  attributesByType : s.Posts ElementId.element ElementId.element r.attributesByType
  parametersByMethod : s.Posts ElementId.element ElementId.element r.parametersByMethod
  localsByMethod : s.Posts ElementId.element ElementId.element r.localsByMethod
  supertypesByType : s.Posts ElementId.element ElementId.element r.supertypesByType
  subtypesByType : s.Posts ElementId.element ElementId.element r.subtypesByType

/-- No reference dangles, and the order lists what is there. -/
structure Total (r : Repository) : Prop where
  refers : r.RefersInto r
  filed : r.Filed

variable {r s : Repository}

namespace Covers

variable {references : α → List Element} {xs : Array α}

theorem keep (h : r.Covers references xs) (keep : ∀ e, r.Holds e → s.Holds e) : s.Covers references xs :=
  fun x mem e refers => keep e (h x mem e refers)

theorem push (h : r.Covers references xs) {x : α} (new : ∀ e ∈ references x, r.Holds e) :
    r.Covers references (xs.push x) := by
  intro y mem
  rcases Array.mem_push.mp mem with old | rfl
  · exact h y old
  · exact new

theorem modify (h : r.Covers references xs) (i : Nat) (f : α → α)
    (changed : ∀ x, ∀ e ∈ references (f x), e ∈ references x ∨ r.Holds e) : r.Covers references (xs.modify i f) := by
  intro y mem e refers
  obtain ⟨j, found⟩ := Array.getElem?_of_mem mem
  rw [Array.getElem?_modify] at found
  split at found
  · obtain ⟨x, at_j, rfl⟩ := Option.map_eq_some_iff.mp found
    rcases changed x e refers with old | there
    · exact h x (Array.mem_of_getElem? at_j) e old
    · exact there
  · exact h y (Array.mem_of_getElem? found) e refers

end Covers

namespace Posts

variable [DecidableEq κ] {key : κ → Element} {item : ι → Element} {p : Postings κ ι}

theorem keep (h : r.Posts key item p) (keep : ∀ e, r.Holds e → s.Holds e) : s.Posts key item p :=
  fun k i mem => ⟨keep _ (h k i mem).1, keep _ (h k i mem).2⟩

theorem file (h : r.Posts key item p) {k : κ} {i : ι} (under : r.Holds (key k)) (filed : r.Holds (item i)) :
    r.Posts key item (p.file k i) := by
  intro other j mem
  rw [Postings.of_file, List.mem_append] at mem
  rcases mem with old | new
  · exact h other j old
  · split at new
    · next same =>
      rw [same, List.mem_singleton.mp new]
      exact ⟨under, filed⟩
    · exact absurd new List.not_mem_nil

end Posts

theorem RefersInto.keep {held : Repository} (h : r.RefersInto held) (keep : ∀ e, held.Holds e → s.Holds e) :
    r.RefersInto s where
  namespaces := h.namespaces.keep keep
  types := h.types.keep keep
  methods := h.methods.keep keep
  attributes := h.attributes.keep keep
  parameters := h.parameters.keep keep
  localVariables := h.localVariables.keep keep
  inheritances := h.inheritances.keep keep
  invocations := h.invocations.keep keep
  accesses := h.accesses.keep keep
  typesByContainer := h.typesByContainer.keep keep
  methodsByType := h.methodsByType.keep keep
  attributesByType := h.attributesByType.keep keep
  parametersByMethod := h.parametersByMethod.keep keep
  localsByMethod := h.localsByMethod.keep keep
  supertypesByType := h.supertypesByType.keep keep
  subtypesByType := h.subtypesByType.keep keep

theorem holds_insert {e : Element} (i : Insertion) (there : r.Holds e) : (i.apply r).Holds e := by
  change e.index < (i.apply r).count e.kind
  rw [i.count_apply]
  split
  · exact Nat.lt_succ_of_lt there
  · exact there

theorem holds_new (i : Insertion) : (i.apply r).Holds ⟨i.kind, r.count i.kind⟩ := by
  change r.count i.kind < (i.apply r).count i.kind
  rw [i.count_apply, if_pos rfl]
  exact Nat.lt_succ_self _

/-- A new element that refers to what is there. -/
theorem RefersInto.insert (h : r.RefersInto r) (i : Insertion) (there : ∀ e ∈ i.references, r.Holds e) :
    (i.apply r).RefersInto (i.apply r) := by
  -- one store gains an item, which refers to itself and to what the insertion refers to
  have kept : r.RefersInto (i.apply r) := h.keep fun _ => holds_insert i
  have itself : (i.apply r).Holds ⟨i.kind, r.count i.kind⟩ := holds_new i
  have others : ∀ e ∈ i.references, (i.apply r).Holds e := fun e mem => holds_insert i (there e mem)
  have all : ∀ e ∈ ⟨i.kind, r.count i.kind⟩ :: i.references, (i.apply r).Holds e :=
    List.forall_mem_cons.mpr ⟨itself, others⟩
  cases i with
  | ns entity => exact { kept with namespaces := kept.namespaces.push all }
  | type entity container kind =>
    exact { kept with
      types := kept.types.push all
      typesByContainer := kept.typesByContainer.file (others _ List.mem_cons_self) itself }
  | method entity parentType signature kind declaredType =>
    exact { kept with
      methods := kept.methods.push all
      methodsByType := kept.methodsByType.file (others _ List.mem_cons_self) itself }
  | «attribute» entity parentType declaredType =>
    exact { kept with
      attributes := kept.attributes.push all
      attributesByType := kept.attributesByType.file (others _ List.mem_cons_self) itself }
  | parameter entity parent declaredType =>
    exact { kept with
      parameters := kept.parameters.push all
      parametersByMethod := kept.parametersByMethod.file (others _ List.mem_cons_self) itself }
  | localVariable entity parent declaredType =>
    cases parent with
    | none => exact { kept with localVariables := kept.localVariables.push all }
    | some method =>
      exact { kept with
        localVariables := kept.localVariables.push all
        localsByMethod := kept.localsByMethod.file (others method.element (by simp [Insertion.references])) itself }
  | inheritance subclass superclass =>
    have sub := others subclass.element List.mem_cons_self
    have super := others superclass.element (by simp [Insertion.references])
    exact { kept with
      inheritances := kept.inheritances.push all
      supertypesByType := kept.supertypesByType.file sub super
      subtypesByType := kept.subtypesByType.file super sub }
  | invocation sender candidates signature => exact { kept with invocations := kept.invocations.push all }
  | access accessor variableRef isWrite => exact { kept with accesses := kept.accesses.push all }

theorem RefersInto.change {p : Promises} {d : Draft} {c : Change} (h : d.repository.RefersInto d.repository)
    (proper : c.Proper p d) (linked : p.linked) :
    (c.apply d).repository.RefersInto (c.apply d).repository := by
  have there : ∀ e ∈ c.references, d.repository.Holds e := proper.there (by cases c <;> trivial)
  rcases c.repository_cases d with same | ⟨i, insertion, inserted⟩ | update
  · rw [same]
    exact h
  · rw [inserted]
    exact h.insert i (Change.references_of_insertion insertion ▸ there)
  have kept : d.repository.RefersInto (c.apply d).repository := h.keep fun _ => (c.keeps d).holds
  have holds : ∀ e ∈ c.references, (c.apply d).repository.Holds e := fun e mem => (c.keeps d).holds (there e mem)
  cases c with
  | space | type | method | field | parameter | initializer | localVariable | inheritance | invocation | access =>
    cases update
  | remember u => exact kept
  | typeModifiers id modifiers =>
    exact { kept with
      types := kept.types.modify id.index ({ · with modifiers := .declared modifiers }) fun _ _ => .inl }
  | typeKind id kind =>
    refine { kept with types := kept.types.modify id.index ({ · with kind }) fun t e refers => ?_ }
    exact (t.references_kind kind refers).imp_right (holds e)
  | typeOpened id =>
    exact { kept with types := kept.types.modify id.index ({ · with isStub := false }) fun _ _ => .inl }
  | typeDeclared id modifiers =>
    exact { kept with
      types := kept.types.modify id.index (fun t => { t with toNamedEntity := t.toNamedEntity.declare modifiers })
        fun _ _ => .inl }
  | methodBound id modifiers declared =>
    refine { kept with
      methods := kept.methods.modify id.index
        ({ · with modifiers := .declared modifiers, declaredType := declared }) fun m e refers => ?_ }
    exact (m.references_declared _ declared refers).imp_right (holds e)
  | methodTyped id declared =>
    refine { kept with
      methods := kept.methods.modify id.index ({ · with declaredType := declared }) fun m e refers => ?_ }
    exact (m.references_declared _ declared refers).imp_right (holds e)
  | methodDeclared id modifiers =>
    exact { kept with
      methods := kept.methods.modify id.index (fun m => { m with toNamedEntity := m.toNamedEntity.declare modifiers })
        fun _ _ => .inl }
  | attributeDeclared id modifiers =>
    exact { kept with
      attributes := kept.attributes.modify id.index
        (fun a => { a with toNamedEntity := { a.toNamedEntity.enrich modifiers with isStub := true } })
        fun _ _ => .inl }
  | written id =>
    exact { kept with accesses := kept.accesses.modify id.index ({ · with isWrite := true }) fun _ _ => .inl }

theorem RefersInto.empty : ({} : Repository).RefersInto {} := by
  constructor <;> simp [Covers, Posts]

/-- Each invocation has one candidate. -/
def Decided (r : Repository) : Prop := ∀ i ∈ r.invocations, ∃ m, i.candidates = [m]

theorem Decided.change {d : Draft} (h : d.repository.Decided) (c : Change) : (c.apply d).repository.Decided := by
  have result := c.result d
  generalize c.apply d = e at result ⊢
  cases result with
  | known | space | type | method | field | parameter => exact h
  | direct c direct =>
    cases c with
    | space | type | method | field | parameter => cases direct
    | invocation sender candidate signature =>
      intro i mem
      rcases Array.mem_push.mp mem with old | rfl
      · exact h i old
      · exact ⟨candidate, rfl⟩
    | _ => exact h

end Repository

/-! What a portrait shows of an element, the element refers to. -/

def Feature.targets : Feature → List Element
  | .references _ targets => targets
  | _ => []

@[simp] theorem Feature.targets_text (name value : String) : (text name value).targets = [] := rfl

@[simp] theorem Feature.targets_flag (name : String) (value : Bool) : (flag name value).targets = [] := rfl

@[simp] theorem Feature.targets_references (name : String) (targets : List Element) :
    (references name targets).targets = targets := rfl

def Portrait.targets (p : Portrait) : List Element := p.features.flatMap (·.targets)

@[simp] theorem NamedEntity.targets_features (x : NamedEntity) : x.features.flatMap (·.targets) = [] := rfl

theorem TypeKind.targets_features (k : TypeKind) :
    k.features.flatMap (·.targets) ⊆ k.references.map (·.element) := by
  cases k with
  | parameterized erasure arguments => simp [features, references]
  | _ => simp [features]

theorem TypeEntity.targets_portrait (t : TypeEntity) : t.portrait.targets ⊆ t.references := by
  have shown : t.portrait.targets = t.container.element :: t.kind.features.flatMap (·.targets) := by
    simp [portrait, Portrait.targets]
  rw [shown]
  exact List.subset_cons_of_subset _ (List.cons_subset_cons _ t.kind.targets_features)

theorem MethodEntity.targets_portrait (m : MethodEntity) : m.portrait.targets ⊆ m.references := by
  have shown : m.portrait.targets = m.parentType.element :: m.declaredType.toList.map (·.element) := by
    cases kind : m.kind <;> simp [portrait, Portrait.targets, kind, MethodKind.features]
  rw [shown]
  exact List.subset_cons_self _ _

theorem AttributeEntity.targets_portrait (a : AttributeEntity) : a.portrait.targets ⊆ a.references :=
  List.subset_cons_self _ _

theorem ParameterEntity.targets_portrait (p : ParameterEntity) : p.portrait.targets ⊆ p.references :=
  List.subset_cons_self _ _

theorem LocalVariableEntity.targets_portrait (v : LocalVariableEntity) : v.portrait.targets ⊆ v.references := by
  have shown : v.portrait.targets = v.parent.toList.map (·.element) ++ [v.declaredType.element] := by
    simp [portrait, Portrait.targets]
  rw [shown]
  intro e mem
  simp only [references, List.mem_append, List.mem_cons, List.not_mem_nil, or_false] at mem ⊢
  tauto

theorem Inheritance.targets_portrait (i : Inheritance) : i.portrait.targets ⊆ i.references :=
  List.subset_cons_self _ _

theorem Invocation.targets_portrait (i : Invocation) : i.portrait.targets ⊆ i.references := by
  have shown : i.portrait.targets = i.sender.toList.map (·.element) ++ i.candidates.map (·.element) := by
    simp [portrait, Portrait.targets]
  rw [shown]
  intro e mem
  simp only [references, List.mem_append, List.mem_cons] at mem ⊢
  tauto

theorem Access.targets_portrait (a : Access) : a.portrait.targets ⊆ a.references := by
  have shown : a.portrait.targets =
      a.accessor.toList.map (·.element) ++ a.variableRef.toList.map (·.element) := by
    simp [portrait, Portrait.targets]
  rw [shown]
  exact List.subset_cons_self _ _

namespace Repository

variable {r : Repository}

theorem RefersInto.portrait? (h : r.RefersInto r) {e : Element} {p : Portrait} (known : r.portrait? e = some p) :
    ∀ x ∈ p.targets, r.Holds x := by
  obtain ⟨kind, index⟩ := e
  intro x shown
  cases kind <;> obtain ⟨entity, found, rfl⟩ := Option.map_eq_some_iff.mp known
  case ns => exact absurd shown List.not_mem_nil
  case type => exact h.types entity (Array.mem_of_getElem? found) x (entity.targets_portrait shown)
  case method => exact h.methods entity (Array.mem_of_getElem? found) x (entity.targets_portrait shown)
  case «attribute» => exact h.attributes entity (Array.mem_of_getElem? found) x (entity.targets_portrait shown)
  case parameter => exact h.parameters entity (Array.mem_of_getElem? found) x (entity.targets_portrait shown)
  case localVariable => exact h.localVariables entity (Array.mem_of_getElem? found) x (entity.targets_portrait shown)
  case inheritance => exact h.inheritances entity (Array.mem_of_getElem? found) x (entity.targets_portrait shown)
  case invocation => exact h.invocations entity (Array.mem_of_getElem? found) x (entity.targets_portrait shown)
  case access => exact h.accesses entity (Array.mem_of_getElem? found) x (entity.targets_portrait shown)

theorem Filed.numbers (h : r.Filed) {targets : List Element} (there : ∀ x ∈ targets, r.Holds x) :
    ∃ numbers : List Nat, targets.map r.number? = numbers.map some := by
  induction targets with
  | nil => exact ⟨[], rfl⟩
  | cons x rest ih =>
    obtain ⟨first, others⟩ := List.forall_mem_cons.mp there
    obtain ⟨n, numbered⟩ := h.number?_of_holds first
    obtain ⟨numbers, same⟩ := ih others
    exact ⟨n :: numbers, by simp [numbered, same]⟩

/-- References to elements that are there are all written. -/
theorem properties_of_numbers {name : String} {targets : List Element} {numbers : List Nat}
    (found : targets.map r.number? = numbers.map some) : (Feature.references name targets).properties r.number? =
      if targets = [] then [] else [.references name numbers] := by
  have written : targets.filterMap r.number? = numbers := by
    have listed := congrArg (List.filterMap id) found
    simpa [List.filterMap_map, Function.comp_def] using listed
  have empty : numbers = [] ↔ targets = [] := by
    rw [← List.map_eq_nil_iff (f := some), ← found, List.map_eq_nil_iff]
  simp only [Feature.properties, written, empty]

end Repository

/-- In the model of a project whatever an element refers to is there, every invocation has one candidate, and no
reference is left out when the model is written: an element has its stanza with all the references of its portrait, and
each of them has as many numbers as targets. -/
theorem buildModel_total (project : Project) (keying : AttributeKeying) :
    let r := buildModel project keying
    r.Total ∧ (∀ i ∈ r.invocations, ∃ m, i.candidates = [m]) ∧
      ∀ e ∈ r.order, ∃ p, r.portrait? e = some p ∧
        r.describe e = (p.className, p.features.flatMap (·.properties r.number?)) ∧
        ∀ name targets, .references name targets ∈ p.features →
          ∃ numbers : List Nat, targets.map r.number? = numbers.map some ∧
            (Feature.references name targets).properties r.number? =
              if targets = [] then [] else [.references name numbers] := by
  intro r
  obtain ⟨total, decided⟩ : r.Total ∧ r.Decided := by
    refine buildModel_invariant (P := fun r => r.Total ∧ r.Decided) ?_ ?_ project keying
    · exact ⟨⟨.empty, .empty⟩, by simp [Repository.Decided]⟩
    · rintro c d - proper ⟨total, decided⟩
      exact ⟨⟨total.refers.change proper trivial, total.filed.change c⟩, decided.change c⟩
  refine ⟨total, decided, fun e listed => ?_⟩
  have there : r.Holds e := (total.filed.all e).mp (Array.mem_toList_iff.mpr listed)
  obtain ⟨p, known⟩ := Repository.portrait?_of_holds there
  refine ⟨p, known, Repository.describe_of_portrait known, fun name targets shown => ?_⟩
  have targeted : ∀ x ∈ targets, r.Holds x := fun x mem =>
    total.refers.portrait? known x (List.mem_flatMap.mpr ⟨_, shown, mem⟩)
  obtain ⟨numbers, found⟩ := total.filed.numbers targeted
  exact ⟨numbers, found, Repository.properties_of_numbers found⟩

end Famix
