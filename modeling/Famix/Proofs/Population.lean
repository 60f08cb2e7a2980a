import Famix.Proofs.History

/-!
Bound types are complete when their resolution returns. While a type is in progress the resolution may come back to
it, and may begin and complete any number of others; what a run touches is its own subject and what is new, so that
nothing that is complete is touched again.
-/
namespace Famix

open Java (BindingTable TypeBinding TypeIndex)

namespace Draft

structure Same (id : TypeId) (d e : Draft) : Prop where
  type : e.repository.type? id = d.repository.type? id
  supertypes : e.repository.supertypesOf id = d.repository.supertypesOf id

theorem Same.trans {id : TypeId} {d e f : Draft} (h : Same id d e) (k : Same id e f) : Same id d f :=
  ⟨k.type.trans h.type, k.supertypes.trans h.supertypes⟩

theorem Same.change {own : TypeId → Prop} {c : Change} {d : Draft} {id : TypeId} (ok : c.Resolving own)
    (old : id.index < d.repository.types.size) (other : ¬ own id) : Same id d (c.apply d) := by
  have untouched : ∀ owned, own owned → owned.index ≠ id.index := by
    intro owned owns same
    cases owned
    cases id
    cases same
    exact other owns
  refine ⟨?_, Change.supertypesOf_apply c d id (by rintro t rfl; exact other ok)⟩
  have result := c.result d
  generalize c.apply d = e at result ⊢
  cases result with
  | known | space => rfl
  | type fresh => exact (Array.getElem?_push_lt old).trans (Array.getElem?_eq_getElem old).symm
  | method | field | parameter => exact ok.elim
  | direct c direct =>
    cases c with
    | space | type => cases direct
    | inheritance | remember => rfl
    | typeModifiers owned _ | typeKind owned _ =>
      exact (Array.getElem?_modify ..).trans (if_neg (untouched owned ok))
    | _ => exact ok.elim

theorem Path.same {own : TypeId → Prop} {d e : Draft} {id : TypeId} (path : Path (Change.Resolving own) d e)
    (old : id.index < d.repository.types.size) (other : ¬ own id) : Same id d e := by
  induction path with
  | refl => exact ⟨rfl, rfl⟩
  | step before c ok ih =>
    exact ih.trans (Same.change ok (Nat.lt_of_lt_of_le old before.before.types) other)

/-- A run leaves a type as it was, unless it is the subject of the task. -/
theorem Resolves.frame {table : BindingTable} {task : Task} {d e : Draft} {found : Found} {id : TypeId}
    (run : Resolves table task d found e) (old : id.index < d.repository.types.size)
    (other : task.subject ≠ some id) : Same id d e := by
  apply run.path.same old
  rintro (same | new)
  · exact other same
  · exact Nat.not_lt_of_le new old

theorem Resolves.frame_twice {table : BindingTable} {is js : List TypeIndex} {d e f : Draft} {found found' : Found}
    {id : TypeId} (first : Resolves table (.every is) d found e) (second : Resolves table (.every js) e found' f)
    (old : id.index < d.repository.types.size) : Same id d f :=
  (first.frame old nofun).trans (second.frame (Nat.lt_of_lt_of_le old first.path.before.types) nofun)

/-- The kind of a type when all that its binding refers to is resolved. -/
inductive Completed (table : BindingTable) (e : Draft) (b : TypeBinding) : TypeKind → Prop where
  | parameterized {erasure : Option TypeId} {arguments : List TypeId} (kind : kindOf b = .parameterized none [])
      (erased : b.erasure.map (resolved? table e) = erasure.map some)
      (applied : b.typeArguments.map (resolved? table e) = arguments.map some) :
      Completed table e b (.parameterized erasure arguments)
  | generic {parameters : List TypeId} (kind : kindOf b = .generic b.isInterface [])
      (declared : b.typeParameters.map (fun name => e.registry.types.get? (typeKey table b ++ "." ++ name)) =
        parameters.map some) : Completed table e b (.generic b.isInterface parameters)
  | plain (notParameterized : kindOf b ≠ .parameterized none [])
      (notGeneric : kindOf b ≠ .generic b.isInterface []) : Completed table e b (kindOf b)

/-- All that a binding says of its type is in the draft. -/
structure Populated (table : BindingTable) (e : Draft) (b : TypeBinding) (id : TypeId) (t : TypeEntity) : Prop where
  known : e.repository.type? id = some t
  name : t.name = b.name
  stub : t.isStub = true
  modifiers : t.modifiers = .declared b.modifiers
  kind : Completed table e b t.kind
  supertypes : (b.superclass.toList ++ b.interfaces).map (resolved? table e) =
    (e.repository.supertypesOf id).map some

def Generic (d : Draft) (id : TypeId) : Prop :=
  ∃ t isInterface parameters, d.repository.type? id = some t ∧ t.kind = .generic isInterface parameters

/-- What a type can be that was made after `base`. -/
inductive Accounted (base : Draft) (table : BindingTable) (e : Draft) (id : TypeId) : Prop where
  | unknown (registered : e.registry.types.get? (unknownKey unknownName) = some id)
  | parameter {t : TypeEntity} {owner : TypeId} (known : e.repository.type? id = some t)
      (kind : t.kind = .typeParameter) (container : t.container = .type owner)
      (new : base.repository.types.size ≤ owner.index) (generic : Generic e owner)
  | image {b : TypeBinding} {t : TypeEntity} (listed : b ∈ table.types)
      (registered : e.registry.types.get? (typeKey table b) = some id) (populated : Populated table e b id t)

theorem map_toList {o : Option ι} {ids : Option TypeId} {f : ι → Option TypeId} :
    o.toList.map f = ids.toList.map some ↔ o.map f = ids.map some := by
  cases o <;> cases ids <;> simp

theorem Completed.keep {table : BindingTable} {d e : Draft} {b : TypeBinding} {kind : TypeKind}
    (h : Completed table d b kind) (keeps : d.registry.Extends e.registry) : Completed table e b kind := by
  cases h with
  | parameterized kind erased applied =>
    exact .parameterized kind (map_toList.mp (resolved_keep keeps (map_toList.mpr erased)))
      (resolved_keep keeps applied)
  | generic kind declared => exact .generic kind (registered_keep keeps declared)
  | plain notParameterized notGeneric => exact .plain notParameterized notGeneric

theorem Accounted.keep {base : Draft} {table : BindingTable} {d e : Draft} {id : TypeId}
    (h : Accounted base table d id) (same : Same id d e) (keeps : d.registry.Extends e.registry)
    (generics : ∀ g, Generic d g → Generic e g) : Accounted base table e id := by
  cases h with
  | unknown registered => exact .unknown (keeps.types _ _ registered)
  | parameter known kind container new generic =>
    exact .parameter (same.type.trans known) kind container new (generics _ generic)
  | image listed registered populated =>
    refine .image listed (keeps.types _ _ registered) { populated with
      known := same.type.trans populated.known
      kind := populated.kind.keep keeps
      supertypes := ?_ }
    rw [same.supertypes]
    exact resolved_keep keeps populated.supertypes

theorem Generic.old {d : Draft} {id : TypeId} (h : Generic d id) : id.index < d.repository.types.size := by
  obtain ⟨t, _, _, known, _⟩ := h
  exact (Array.getElem?_eq_some_iff.mp known).1

theorem Generic.same {d e : Draft} {id : TypeId} (h : Generic d id) (same : Same id d e) : Generic e id := by
  obtain ⟨t, isInterface, parameters, known, kind⟩ := h
  exact ⟨t, isInterface, parameters, same.type.trans known, kind⟩

theorem setKind_type {d : Draft} {id : TypeId} {t : TypeEntity} (known : d.repository.type? id = some t)
    (kind : TypeKind) : (d.setKind id kind).repository.type? id = some { t with kind } := by
  have modified : (d.setKind id kind).repository.type? id =
      (d.repository.type? id).map fun t => { t with kind } := (Array.getElem?_modify ..).trans (if_pos rfl)
  rw [modified, known]
  rfl

theorem setKind_same {d : Draft} {id other : TypeId} (kind : TypeKind) (old : other.index < d.repository.types.size)
    (apart : other ≠ id) : Same other d (d.setKind id kind) := by
  have ok : (Change.typeKind id kind).Resolving (· = id) := rfl
  exact Same.change ok old apart

/-! New types. -/

theorem internType_new {key name : String} {c : Container} {kind : TypeKind} {d : Draft} {id : TypeId}
    (low : d.repository.types.size ≤ id.index)
    (high : id.index < (internType key name c kind d).2.repository.types.size) :
    ∃ fresh, internType key name c kind d = (.created id, d.addType key name c kind fresh) := by
  by_cases fresh : d.registry.types.get? key = none
  · refine ⟨fresh, ?_⟩
    rw [internType_of_none fresh] at high ⊢
    have upper : id.index < d.repository.types.size + 1 := Nat.lt_of_lt_of_eq high (Array.size_push _)
    have last : d.repository.types.size = id.index := Nat.le_antisymm low (Nat.le_of_lt_succ upper)
    rw [last]
  · obtain ⟨other, known⟩ := Option.ne_none_iff_exists'.mp fresh
    rw [internType_of_some known] at high
    exact absurd high (Nat.not_lt_of_le low)

theorem ensureNamespace_size (name : String) (d : Draft) :
    (ensureNamespace name d).2.repository.types.size = d.repository.types.size := by
  cases known : d.registry.namespaces.get? name with
  | some space => rw [ensureNamespace_of_some known]
  | none => rw [ensureNamespace_of_none known]; rfl

theorem unknownNamespace_size (d : Draft) :
    (unknownNamespace d).2.repository.types.size = d.repository.types.size :=
  congrArg Array.size (unknownNamespace_types d).1

theorem unknownTypeNamed_new {name : String} {d : Draft} {id : TypeId} (low : d.repository.types.size ≤ id.index)
    (high : id.index < (unknownTypeNamed name d).2.repository.types.size) :
    (unknownTypeNamed name d).2.registry.types.get? (unknownKey name) = some id := by
  have spaces := unknownNamespace_size d
  obtain ⟨_, made⟩ := internType_new (Nat.le_trans (Nat.le_of_eq spaces) low) high
  have registered := internType_registers (unknownKey name) name (.ns (unknownNamespace d).1) .unknown
    (unknownNamespace d).2
  exact registered.trans (congrArg (some ·.1.id) made)

theorem ensureTypeParameters_registers (owner : TypeId) (key : String) (names : List String) (d : Draft) :
    names.map (fun name =>
      (ensureTypeParameters owner key names d).draft.registry.types.get? (key ++ "." ++ name)) =
      (ensureTypeParameters owner key names d).value.map some := by
  induction names generalizing d with
  | nil => rfl
  | cons name names ih =>
    have registered := internType_registers (key ++ "." ++ name) name (.type owner) .typeParameter d
    exact List.cons_eq_cons.mpr ⟨(ensureTypeParameters owner key names _).keeps _ _ registered, ih _⟩

theorem ensureTypeParameters_new {owner : TypeId} {key : String} {names : List String} {d : Draft} {id : TypeId}
    (low : d.repository.types.size ≤ id.index)
    (high : id.index < (ensureTypeParameters owner key names d).draft.repository.types.size) :
    ∃ t, (ensureTypeParameters owner key names d).draft.repository.type? id = some t ∧
      t.kind = .typeParameter ∧ t.container = .type owner := by
  induction names generalizing d with
  | nil => exact absurd high (Nat.not_lt_of_le low)
  | cons name names ih =>
    by_cases first : id.index <
        (internType (key ++ "." ++ name) name (.type owner) .typeParameter d).2.repository.types.size
    · obtain ⟨_, made⟩ := internType_new low first
      have others : Path (Change.Resolving fun _ => False) _ _ := ensureTypeParameters_path owner key names
        (internType (key ++ "." ++ name) name (.type owner) .typeParameter d).2
      have last : d.repository.types.size = id.index := by
        have created := congrArg Prod.fst made
        obtain ⟨-, rfl⟩ := internType_created created
        rfl
      have known : (internType (key ++ "." ++ name) name (.type owner) .typeParameter d).2.repository.type? id =
          some { NamedEntity.stub name with
            id := ⟨d.repository.types.size⟩, container := .type owner, kind := .typeParameter } := by
        rw [made, Repository.type?, ← last]
        exact Array.getElem?_push_size
      exact ⟨_, (others.same first not_false).type.trans known, rfl, rfl⟩
    · exact ih (Nat.le_of_not_lt first) high

/-! What tasks do to their subject. -/

def Task.Begun (d : Draft) : Task → Prop
  | .link subclass _ => d.repository.Holds subclass.element
  | .complete b id => ∃ t, d.repository.type? id = some t ∧ t.kind = kindOf b
  | _ => True

/-- Linking adds the supertypes in their order and nothing else; completing sets the kind and nothing else. -/
def Task.Effect (table : BindingTable) (d e : Draft) : Task → Prop
  | .link subclass is => e.repository.type? subclass = d.repository.type? subclass ∧
      (e.repository.supertypesOf subclass).map some =
        (d.repository.supertypesOf subclass).map some ++ is.map (resolved? table e)
  | .complete b id => e.repository.supertypesOf id = d.repository.supertypesOf id ∧
      ∀ t, d.repository.type? id = some t → ∃ kind, e.repository.type? id = some { t with kind } ∧
        Completed table e b kind
  | _ => True

theorem Resolves.effect {table : BindingTable} {task : Task} {d e : Draft} {found : Found}
    (run : Resolves table task d found e) (begun : task.Begun d) : task.Effect table d e := by
  induction run with
  | unlinked => exact ⟨rfl, by simp⟩
  | @link s id i is d e f first others _ ihOthers =>
    have there : s.index < e.repository.types.size := Nat.lt_of_lt_of_le begun first.path.before.types
    obtain ⟨type, supertypes⟩ := ihOthers there
    have same := first.frame begun nofun
    have posted : (e.linkedTo s id).repository.supertypesOf s = d.repository.supertypesOf s ++ [id] := by
      rw [← same.supertypes]
      exact (Postings.of_file ..).trans (by rw [if_pos rfl]; rfl)
    have resolved : resolved? table f i = some id := others.registry_extends.types _ _ first.registers
    refine ⟨type.trans same.type, ?_⟩
    rw [supertypes, posted, List.map_append, List.append_assoc, is.map_cons, resolved]
    rfl
  | @parameterized b id erasure arguments d e f kind erased applied _ _ =>
    obtain ⟨t, known, _⟩ := begun
    have old : id.index < d.repository.types.size := (Array.getElem?_eq_some_iff.mp known).1
    have same := erased.frame_twice applied old
    refine ⟨same.supertypes, fun t known => ⟨_, setKind_type (same.type.trans known) _,
      .parameterized kind (map_toList.mp ?_) applied.registers⟩⟩
    exact resolved_keep applied.registry_extends erased.registers
  | @generic b id d kind =>
    obtain ⟨t, known, _⟩ := begun
    have old : id.index < d.repository.types.size := (Array.getElem?_eq_some_iff.mp known).1
    have path : Path (Change.Resolving fun _ => False) _ _ :=
      ensureTypeParameters_path id (typeKey table b) b.typeParameters d
    have same := path.same old nofun
    exact ⟨same.supertypes, fun t known => ⟨_, setKind_type (same.type.trans known) _,
      .generic kind (ensureTypeParameters_registers ..)⟩⟩
  | @plain b id d notParameterized notGeneric =>
    obtain ⟨t, known, kind⟩ := begun
    refine ⟨rfl, fun u known' => ⟨kindOf b, ?_, .plain notParameterized notGeneric⟩⟩
    cases known.symm.trans known'
    rw [known, ← kind]
  | inside | beyond | finished | next | enclosed | free | known | met | made => trivial

/-- A generic type stays one, also while it is being completed. -/
theorem Resolves.generics {table : BindingTable} {task : Task} {d e : Draft} {found : Found}
    (run : Resolves table task d found e) (begun : task.Begun d) {g : TypeId} (h : Generic d g) : Generic e g := by
  by_cases subject : task.subject = some g
  · have effect := run.effect begun
    obtain ⟨t, isInterface, parameters, known, generic⟩ := h
    cases task with
    | link subclass is =>
      cases subject
      exact ⟨t, isInterface, parameters, effect.1.trans known, generic⟩
    | complete b id =>
      cases subject
      obtain ⟨u, known', kind⟩ := begun
      cases known.symm.trans known'
      obtain ⟨-, plain⟩ := kindOf_of_generic (kind.symm.trans generic)
      obtain ⟨new, known, completed⟩ := effect.2 t known
      cases completed with
      | parameterized other => rw [plain] at other; cases other
      | generic => exact ⟨_, _, _, known, rfl⟩
      | plain _ notGeneric => exact absurd plain notGeneric
    | index | every | place | binding => cases subject
  · exact h.same (run.frame h.old subject)

theorem Accounted.through {base : Draft} {table : BindingTable} {task : Task} {d e : Draft} {found : Found}
    {id : TypeId} (h : Accounted base table d id) (run : Resolves table task d found e) (begun : task.Begun d)
    (old : id.index < d.repository.types.size) (other : task.subject ≠ some id) : Accounted base table e id :=
  h.keep (run.frame old other) run.registry_extends fun _ => run.generics begun

/-- Before the last part of a run, a type is accounted for or not there yet. -/
theorem Accounted.after {base d e : Draft} {table : BindingTable} {task : Task} {found : Found} {id : TypeId}
    (run : Resolves table task d found e) (begun : task.Begun d) (other : task.subject ≠ some id)
    (early : id.index < d.repository.types.size → Accounted base table d id)
    (late : d.repository.types.size ≤ id.index → Accounted base table e id) : Accounted base table e id := by
  by_cases old : id.index < d.repository.types.size
  · exact (early old).through run begun old other
  · exact late (Nat.le_of_not_lt old)

section Accounting

variable {base d : Draft} {table : BindingTable} {id s : TypeId}

theorem Accounted.linkedTo (h : Accounted base table d id) (apart : s ≠ id) (t : TypeId) :
    Accounted base table (d.linkedTo s t) id := by
  have same : Same id d (d.linkedTo s t) :=
    ⟨rfl, Change.supertypesOf_apply (.inheritance s t) d id fun _ h => apart (Change.inheritance.inj h).1⟩
  exact h.keep same (.refl _) fun _ generic => generic

theorem Accounted.setKind (h : Accounted base table d id) (old : id.index < d.repository.types.size)
    (apart : id ≠ s) (notGeneric : ¬ Generic d s) (kind : TypeKind) :
    Accounted base table (d.setKind s kind) id := by
  refine h.keep (setKind_same kind old apart) (.refl _) fun g generic => ?_
  have other : g ≠ s := by
    rintro rfl
    exact notGeneric generic
  exact generic.same (setKind_same kind generic.old other)

/-- What is made for the parameters of a type is contained in it, and the type is generic in the end. -/
theorem ensureTypeParameters_accounted {t : TypeEntity} {key : String} {names : List String} {isInterface : Bool}
    (known : d.repository.type? s = some t) (new : base.repository.types.size ≤ s.index)
    (low : d.repository.types.size ≤ id.index)
    (high : id.index < (ensureTypeParameters s key names d).draft.repository.types.size) :
    Accounted base table ((ensureTypeParameters s key names d).draft.setKind s
      (.generic isInterface (ensureTypeParameters s key names d).value)) id := by
  have old : s.index < d.repository.types.size := (Array.getElem?_eq_some_iff.mp known).1
  have apart : id ≠ s := by
    rintro rfl
    exact Nat.not_lt_of_le low old
  have path : Path (Change.Resolving fun _ => False) d (ensureTypeParameters s key names d).draft :=
    ensureTypeParameters_path s key names d
  have owner := (path.same old nofun).type.trans known
  obtain ⟨u, found, kind, container⟩ := ensureTypeParameters_new low high
  exact .parameter ((setKind_same _ high apart).type.trans found) kind container new
    ⟨_, _, _, setKind_type owner _, rfl⟩

end Accounting

/-! A type that is started. -/

section Started

variable {table : BindingTable} {b : TypeBinding} {c : Container} {d : Draft}

theorem started_size (unmet : d.registry.types.get? (typeKey table b) = none) :
    (started table b c d).repository.types.size = d.repository.types.size + 1 := by
  rw [started, internType_of_none unmet]
  simp [begun, edit, Repository.updateType, addType, Repository.insertType]

theorem started_holds (unmet : d.registry.types.get? (typeKey table b) = none) :
    Present (⟨d.repository.types.size⟩ : TypeId) (started table b c d) :=
  Nat.lt_of_lt_of_eq (Nat.lt_succ_self _) (started_size unmet).symm

theorem started_type (unmet : d.registry.types.get? (typeKey table b) = none) :
    (started table b c d).repository.type? ⟨d.repository.types.size⟩ =
      some { name := b.name, isStub := true, modifiers := .declared b.modifiers,
             id := ⟨d.repository.types.size⟩, container := c, kind := kindOf b } := by
  rw [started, internType_of_none unmet]
  have pushed : (d.addType (typeKey table b) b.name c (kindOf b) unmet).repository.types[d.repository.types.size]? =
      some { NamedEntity.stub b.name with
        id := ⟨d.repository.types.size⟩, container := c, kind := kindOf b } := Array.getElem?_push_size
  refine (Array.getElem?_modify ..).trans ?_
  rw [if_pos rfl, pushed]
  rfl

theorem started_path : Path (Change.Resolving (· = ⟨d.repository.types.size⟩)) d (started table b c d) :=
  .step (.single (.type (typeKey table b) b.name c (kindOf b)) trivial)
    (.typeModifiers ⟨d.repository.types.size⟩ b.modifiers) rfl

theorem started_same {id : TypeId} (old : id.index < d.repository.types.size) : Same id d (started table b c d) := by
  apply started_path.same old
  rintro rfl
  exact Nat.lt_irrefl _ old

theorem Accounted.start {base : Draft} {id : TypeId} (h : Accounted base table d id)
    (old : id.index < d.repository.types.size) : Accounted base table (started table b c d) id :=
  h.keep (started_same old) started_path.registry_extends fun _ generic => generic.same (started_same generic.old)

/-- A type that was not there has all its supertypes from being linked, and its kind from being completed. -/
theorem Resolves.populates {f g : Draft} (unmet : d.registry.types.get? (typeKey table b) = none)
    (unlinked : Unlinked d)
    (links : Resolves table (.link ⟨d.repository.types.size⟩ (b.superclass.toList ++ b.interfaces))
      (started table b c d) .nothing f)
    (completion : Resolves table (.complete b ⟨d.repository.types.size⟩) f .nothing g) :
    ∃ t, Populated table g b ⟨d.repository.types.size⟩ t := by
  have there := started_holds (c := c) unmet
  obtain ⟨type, linked⟩ := links.effect there
  have known := type.trans (started_type unmet)
  obtain ⟨supertypes, completed⟩ := completion.effect ⟨_, known, rfl⟩
  obtain ⟨kind, final, complete⟩ := completed _ known
  have bare : (started table b c d).repository.supertypesOf ⟨d.repository.types.size⟩ = [] := by
    have kept : (started table b c d).repository.supertypesOf ⟨d.repository.types.size⟩ =
        ((Change.type (typeKey table b) b.name c (kindOf b)).apply d).repository.supertypesOf
          ⟨d.repository.types.size⟩ := rfl
    rw [kept, Change.supertypesOf_apply (.type (typeKey table b) b.name c (kindOf b)) d _ nofun]
    exact unlinked _ (Nat.le_refl _)
  refine ⟨_, final, rfl, rfl, rfl, complete, ?_⟩
  rw [supertypes]
  rw [bare, List.map_nil, List.nil_append] at linked
  exact resolved_keep completion.registry_extends linked.symm

end Started

end Draft

namespace Draft

/-- The types after a new type of a binding is made: those from finding its container, the type itself, and those
from linking and from completing it. -/
theorem Accounted.made {table : BindingTable} {b : TypeBinding} {c : Container} {base d f g : Draft} {id : TypeId}
    (listed : b ∈ table.types) (unmet : d.registry.types.get? (typeKey table b) = none) (unlinked : Unlinked d)
    (links : Resolves table (.link ⟨d.repository.types.size⟩ (b.superclass.toList ++ b.interfaces))
      (started table b c d) .nothing f)
    (completion : Resolves table (.complete b ⟨d.repository.types.size⟩) f .nothing g)
    (placed : id.index < d.repository.types.size → Accounted base table d id)
    (linked : (started table b c d).repository.types.size ≤ id.index → id.index < f.repository.types.size →
      Accounted base table f id)
    (completed : f.repository.types.size ≤ id.index → Accounted base table g id) : Accounted base table g id := by
  have there := started_holds (c := c) unmet
  have begun : (Task.complete b ⟨d.repository.types.size⟩).Begun f :=
    ⟨_, (links.effect there).1.trans (started_type unmet), rfl⟩
  rcases Nat.lt_trichotomy id.index d.repository.types.size with early | same | late
  · have apart : ∀ is, (Task.link ⟨d.repository.types.size⟩ is).subject ≠ some id := by
      rintro is ⟨⟩
      exact Nat.lt_irrefl _ early
    have old : id.index < (started table b c d).repository.types.size :=
      Nat.lt_of_lt_of_le early started_path.before.types
    have atLinks := ((placed early).start early).through links there old (apart _)
    exact atLinks.through completion begun (Nat.lt_of_lt_of_le old links.path.before.types) (apart [])
  · obtain rfl : id = ⟨d.repository.types.size⟩ := congrArg ElementId.mk same
    obtain ⟨t, populated⟩ := Resolves.populates unmet unlinked links completion
    have registered := links.registry_extends.types _ _ (started_registers (c := c) unmet)
    exact .image listed (completion.registry_extends.types _ _ registered) populated
  · have size : (started table b c d).repository.types.size = d.repository.types.size + 1 := started_size unmet
    refine .after completion begun ?_ (linked (Nat.le_trans (Nat.le_of_eq size) late)) completed
    rintro ⟨⟩
    exact Nat.lt_irrefl _ late

end Draft

/-- What is promised where inheritances are to be between types that are there. -/
def Promises.links : Promises := ⟨False, True⟩

namespace Draft

/-- How a task stands that is part of a resolution begun in `base`. -/
structure Task.Open (base : Draft) (table : BindingTable) (d : Draft) (task : Task) : Prop where
  sound : Sound .links d
  before : Before base d
  ready : task.Ready table d
  begun : task.Begun d
  own : ∀ id, task.subject = some id → base.repository.types.size ≤ id.index

theorem Resolves.links_walk {table : BindingTable} {task : Task} {d e : Draft} {found : Found}
    (run : Resolves table task d found e) (sound : Sound .links d) (ready : task.Ready table d) :
    Walk .links d e ∧ task.Places .links table e found := run.walk False.elim sound ready

/-- Every type that a run makes is accounted for when it returns. The induction is on the run; what one part of it
has made is untouched by the parts that follow. -/
theorem Resolves.accounts {table : BindingTable} {task : Task} {d e base : Draft} {found : Found} {id : TypeId}
    (run : Resolves table task d found e) (h : task.Open base table d)
    (low : d.repository.types.size ≤ id.index) (high : id.index < e.repository.types.size) :
    Accounted base table e id := by
  induction run with
  | inside known _ ih =>
    exact ih ⟨h.sound, h.before, List.mem_of_getElem? known, trivial, nofun⟩ low high
  | beyond =>
    rw [unknownType_eq] at high ⊢
    exact .unknown (unknownTypeNamed_new low high)
  | finished => exact absurd high (Nat.not_lt_of_le low)
  | @next i is _ _ d e f first others ihFirst ihOthers =>
    have walk := (first.links_walk h.sound trivial).1
    refine .after others trivial nofun (ihFirst ⟨h.sound, h.before, trivial, trivial, nofun⟩ low) fun late => ?_
    exact ihOthers ⟨walk.sound h.sound, h.before.trans first.path.before, trivial, trivial, nofun⟩ late high
  | unlinked => exact absurd high (Nat.not_lt_of_le low)
  | @link s t i is d e f first others ihFirst ihOthers =>
    have walk := (first.links_walk h.sound trivial).1
    have below := walk.keeps.holds h.ready
    have apart : s ≠ id := by
      rintro rfl
      exact Nat.not_lt_of_le low h.ready
    refine .after others below (fun same => apart (Option.some.inj same)) (fun early => ?_) fun late => ?_
    · exact (ihFirst ⟨h.sound, h.before, trivial, trivial, nofun⟩ low early).linkedTo apart t
    · have linked := walk.trans (linkedTo_walk below ((walk.sound h.sound).holds_type first.registers))
      have before := first.path.before.trans (before_change (.inheritance s t) e)
      exact ihOthers ⟨linked.sound h.sound, h.before.trans before, below, below, h.own⟩ late high
  | enclosed outer _ _ ih => exact ih ⟨h.sound, h.before, outer.listed, trivial, nofun⟩ low high
  | free => exact absurd (Nat.lt_of_lt_of_eq high (ensureNamespace_size _ _)) (Nat.not_lt_of_le low)
  | @parameterized b s erasure arguments d e f kind erased applied ihErased ihApplied =>
    obtain ⟨t, known, uncompleted⟩ := h.begun
    have old : s.index < d.repository.types.size := (Array.getElem?_eq_some_iff.mp known).1
    have apart : id ≠ s := by
      rintro rfl
      exact Nat.not_lt_of_le low old
    have high : id.index < f.repository.types.size := Nat.lt_of_lt_of_eq high Array.size_modify
    -- the type is of another kind until its kind is set, so that no parameter is contained in it
    have notGeneric : ¬ Generic f s := by
      rintro ⟨u, _, _, found, generic⟩
      cases ((erased.frame_twice applied old).type.trans known).symm.trans found
      rw [uncompleted, kind] at generic
      cases generic
    have walk := (erased.links_walk h.sound trivial).1
    refine .setKind (.after applied trivial nofun ?_ fun late => ?_) high apart notGeneric _
    · exact ihErased ⟨h.sound, h.before, trivial, trivial, nofun⟩ low
    · exact ihApplied ⟨walk.sound h.sound, h.before.trans erased.path.before, trivial, trivial, nofun⟩ late high
  | @generic b s d kind =>
    obtain ⟨t, known, _⟩ := h.begun
    exact ensureTypeParameters_accounted known (h.own s rfl) low (Nat.lt_of_lt_of_eq high Array.size_modify)
  | plain => exact absurd high (Nat.not_lt_of_le low)
  | known => exact absurd high (Nat.not_lt_of_le low)
  | met _ _ _ ihPlace => exact ihPlace ⟨h.sound, h.before, h.ready, trivial, nofun⟩ low high
  | @made b c d e f g _ place unmet links completion ihPlace ihLinks ihCompletion =>
    obtain ⟨walk, outer, -⟩ := place.links_walk h.sound h.ready
    have start : Walk .links e (started table b c e) := started_walk outer False.elim False.elim
    have sound := start.sound (walk.sound h.sound)
    have there := started_holds (c := c) unmet
    have linking := (links.links_walk sound there).1
    have before : Before base (started table b c e) :=
      (h.before.trans place.path.before).trans started_path.before
    have new : ∀ task : Task, task.subject = some ⟨e.repository.types.size⟩ → ∀ s, task.subject = some s →
        base.repository.types.size ≤ s.index := by
      intro task subject s same
      cases subject.symm.trans same
      exact (h.before.trans place.path.before).types
    have known := linking.registry_extends.types _ _ (started_registers (c := c) unmet)
    have begun := (links.effect there).1.trans (started_type unmet)
    refine .made h.ready unmet ((walk.sound h.sound).linked trivial) links completion (fun early => ?_)
      (fun atLeast below => ?_) fun late => ?_
    · exact ihPlace ⟨h.sound, h.before, h.ready, trivial, nofun⟩ low early
    · exact ihLinks ⟨sound, before, there, there, new _ rfl⟩ atLeast below
    · exact ihCompletion ⟨linking.sound sound, before.trans links.path.before, ⟨h.ready, known⟩, ⟨_, begun, rfl⟩,
        new _ rfl⟩ late high

theorem typeOfBinding_resolved {ctx : Context} {d : Draft} {i : TypeIndex} {id : TypeId}
    (known : resolved? ctx.bindings d i = some id) : (typeOfBinding ctx i d).1 = id := by
  have run := resolveIndex_runs ctx.bindings i d
  have registered : resolved? ctx.bindings (typeOfBinding ctx i d).2 i = some (typeOfBinding ctx i d).1 :=
    run.registers
  have kept : resolved? ctx.bindings (typeOfBinding ctx i d).2 i = some id := run.registry_extends.types _ _ known
  exact Option.some.inj (registered.symm.trans kept)

/-- The supertypes listed for a type are those of its inheritances, one for each and in their order. -/
def EdgesListed (d : Draft) : Prop :=
  ∀ id, d.repository.supertypesOf id =
    (d.repository.inheritances.toList.filter (·.subclass = id)).map (·.superclass)

theorem EdgesListed.change {d : Draft} (h : EdgesListed d) (c : Change) : EdgesListed (c.apply d) := by
  have result := c.result d
  generalize c.apply d = e at result ⊢
  cases result with
  | known | space | type | method | field | parameter => exact h
  | direct c direct =>
    cases c with
    | space | type | method | field | parameter => cases direct
    | inheritance subclass superclass =>
      intro id
      have listed : ((Change.inheritance subclass superclass).apply d).repository.supertypesOf id =
          d.repository.supertypesOf id ++ if id = subclass then [superclass] else [] := Postings.of_file ..
      have pushed : ((Change.inheritance subclass superclass).apply d).repository.inheritances.toList =
          d.repository.inheritances.toList ++ [⟨⟨d.repository.inheritances.size⟩, subclass, superclass⟩] :=
        Array.toList_push
      rw [listed, pushed, List.filter_append, List.map_append, h id]
      by_cases own : id = subclass
      · simp [own]
      · simp [own, Ne.symm own]
    | _ => exact h

end Draft

namespace Operation

/-- After any admissible history, each type that resolving a place of the table makes is the unknown type, a
parameter of a generic type made on the way, or the type of a binding that is registered under its key and complete:
all that it refers to is what is registered for it. -/
theorem typeOfBinding_populates (ctx : Context) (history : List Operation)
    (fits : Admissible .links ctx history {}) (i : TypeIndex) :
    let before := applyAll ctx history {}
    let after := (Draft.typeOfBinding ctx i before).2
    (∀ id : TypeId, before.repository.types.size ≤ id.index → id.index < after.repository.types.size →
      Draft.Accounted before ctx.bindings after id) ∧
    (∀ j id, Draft.resolved? ctx.bindings after j = some id → (Draft.typeOfBinding ctx j after).1 = id) ∧
    after.EdgesListed := by
  intro before after
  have kept : ctx.Keeps .links := False.elim
  have sound : Draft.Sound .links before := sound_applyAll kept history (sound_empty .links) fits
  have run := Draft.resolveIndex_runs ctx.bindings i before
  refine ⟨fun id low high => ?_, fun j id => Draft.typeOfBinding_resolved, ?_⟩
  · exact run.accounts ⟨sound, .refl before, trivial, trivial, nofun⟩ low high
  · have listed : before.EdgesListed :=
      applyAll_invariant ctx (fun c _ h => h.change c) (fun _ _ h => h) history {} fun _ => rfl
    exact run.path.invariant listed fun c _ _ h => h.change c

/-- An enum type that extends an instance of a generic type by itself; the generic type has a missing interface and
the enum type a member that extends it. -/
def enumContext : Context where
  bindings := { types := [
    { Java.TypeBinding.inPackage "p" "Color" with isEnum := true, superclass := some 1 },
    { Java.TypeBinding.inPackage "lang" "Enum<p.Color>" with
      name := "Enum", isParameterized := true, erasure := some 2, typeArguments := [0, 3] },
    { Java.TypeBinding.inPackage "lang" "Enum" with
      isGeneric := true, typeParameters := ["E", "E"], interfaces := [9] },
    { qualifiedName := "p.Color.Red", name := "Red", declaringClass := some 0, superclass := some 0 }] }

/-- Two types known only as written, one of them made a supertype of the other. -/
def linkedHistory : List Operation :=
  [.ensureNamespace "p", .enter (.ns ⟨0⟩), .typeOfExpr (.simple "A"), .typeOfExpr (.simple "B"),
    .inherit ⟨1⟩ ⟨0⟩]

theorem linkedHistory_admissible : Admissible .links enumContext linkedHistory {} := by
  refine ⟨trivial, ?_, trivial, trivial, fun _ => ⟨?_, ?_⟩, trivial⟩
  · change 0 < _
    decide +kernel
  · change 1 < _
    decide +kernel
  · change 0 < _
    decide +kernel

theorem typeOfBinding_populates_enum :
    Admissible .links enumContext linkedHistory {} ∧
    let before := applyAll enumContext linkedHistory {}
    let after := (Draft.typeOfBinding enumContext 3 before).2
    (∀ id : TypeId, before.repository.types.size ≤ id.index → id.index < after.repository.types.size →
      Draft.Accounted before enumContext.bindings after id) ∧
    (∀ j id, Draft.resolved? enumContext.bindings after j = some id →
      (Draft.typeOfBinding enumContext j after).1 = id) ∧
    after.EdgesListed :=
  ⟨linkedHistory_admissible, typeOfBinding_populates enumContext linkedHistory linkedHistory_admissible 3⟩

end Operation

end Famix
