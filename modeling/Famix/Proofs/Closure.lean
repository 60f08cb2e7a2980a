import Famix.Proofs.Population
import Mathlib.Data.List.Nodup

/-!
Which types resolution makes. A resolution registers a type before it follows the links of its binding, the link to
the declaring class apart, which it follows first and from which it may come back. What is registered in the end is
nevertheless the closure of what was asked for, no more and no less.
-/
namespace Famix

open Java (BindingTable TypeBinding TypeIndex)

/-- A link of a binding that resolution follows, other than the one to the declaring class. -/
inductive Follows (b : TypeBinding) : TypeIndex → Prop where
  | superclass {i : TypeIndex} (extended : b.superclass = some i) : Follows b i
  | interface {i : TypeIndex} (implemented : i ∈ b.interfaces) : Follows b i
  | erasure {i : TypeIndex} (kind : kindOf b = .parameterized none []) (erased : b.erasure = some i) : Follows b i
  | argument {i : TypeIndex} (kind : kindOf b = .parameterized none []) (given : i ∈ b.typeArguments) : Follows b i

/-- The bindings that links lead to from some places of the table. -/
inductive Reachable (table : BindingTable) (roots : List TypeIndex) : TypeBinding → Prop where
  | root {i : TypeIndex} {b : TypeBinding} (listed : i ∈ roots) (known : table.types[i]? = some b) :
      Reachable table roots b
  | follow {b c : TypeBinding} {i : TypeIndex} (source : Reachable table roots b) (link : Follows b i)
      (known : table.types[i]? = some c) : Reachable table roots c
  | declaring {b outer : TypeBinding} (source : Reachable table roots b) (member : MemberOf table b outer) :
      Reachable table roots outer

/-- A place of the table that is asked for, or that a link leads to. -/
def Sought (table : BindingTable) (roots : List TypeIndex) (i : TypeIndex) : Prop :=
  i ∈ roots ∨ ∃ b, Reachable table roots b ∧ Follows b i

inductive Expected (table : BindingTable) (roots : List TypeIndex) : String → Prop where
  | binding {b : TypeBinding} (reached : Reachable table roots b) : Expected table roots (typeKey table b)
  | parameter {g : TypeBinding} {p : String} (reached : Reachable table roots g)
      (kind : kindOf g = .generic g.isInterface []) (declared : p ∈ g.typeParameters) :
      Expected table roots (typeKey table g ++ "." ++ p)
  | unknown {i : TypeIndex} (sought : Sought table roots i) (dangling : table.types[i]? = none) :
      Expected table roots (unknownKey unknownName)

/-- No two entries of the table have the same key, and none has the key of a type parameter or of the unknown
type. -/
structure KeysApart (table : BindingTable) : Prop where
  bindings : (table.types.map (typeKey table)).Nodup
  parameters : ∀ b ∈ table.types, ∀ g ∈ table.types, kindOf g = .generic g.isInterface [] →
    ∀ p ∈ g.typeParameters, typeKey table b ≠ typeKey table g ++ "." ++ p
  unknown : ∀ b ∈ table.types, typeKey table b ≠ unknownKey unknownName
  unknownParameter : ∀ g ∈ table.types, kindOf g = .generic g.isInterface [] →
    ∀ p ∈ g.typeParameters, typeKey table g ++ "." ++ p ≠ unknownKey unknownName

theorem KeysApart.eq_of_key {table : BindingTable} (apart : KeysApart table) {b c : TypeBinding}
    (listed : b ∈ table.types) (other : c ∈ table.types) (same : typeKey table b = typeKey table c) : b = c :=
  List.inj_on_of_nodup_map apart.bindings listed other same

theorem MemberOf.unique {table : BindingTable} {b outer other : TypeBinding} (h : MemberOf table b outer)
    (k : MemberOf table b other) : outer = other := by
  obtain ⟨i, _, declared, known, _⟩ := h
  obtain ⟨j, _, declared', known', _⟩ := k
  cases Option.some.inj (declared.symm.trans declared')
  exact Option.some.inj (known.symm.trans known')

theorem Reachable.listed {table : BindingTable} {roots : List TypeIndex} {b : TypeBinding}
    (h : Reachable table roots b) : b ∈ table.types := by
  cases h with
  | root _ known => exact List.mem_of_getElem? known
  | follow _ _ known => exact List.mem_of_getElem? known
  | declaring _ member =>
    obtain ⟨_, _, _, known, _⟩ := member
    exact List.mem_of_getElem? known

theorem Reachable.mono {table : BindingTable} {roots others : List TypeIndex} {b : TypeBinding}
    (h : Reachable table roots b) (sub : ∀ i ∈ roots, i ∈ others) : Reachable table others b := by
  induction h with
  | root listed known => exact .root (sub _ listed) known
  | follow _ link known ih => exact .follow ih link known
  | declaring _ member ih => exact .declaring ih member

theorem Expected.mono {table : BindingTable} {roots others : List TypeIndex} {key : String}
    (h : Expected table roots key) (sub : ∀ i ∈ roots, i ∈ others) : Expected table others key := by
  cases h with
  | binding reached => exact .binding (reached.mono sub)
  | parameter reached kind declared => exact .parameter (reached.mono sub) kind declared
  | unknown sought dangling =>
    refine .unknown ?_ dangling
    rcases sought with listed | ⟨b, reached, link⟩
    · exact .inl (sub _ listed)
    · exact .inr ⟨b, reached.mono sub, link⟩

namespace Draft

def Knows (d : Draft) (key : String) : Prop := ∃ id, d.registry.types.get? key = some id

theorem Knows.keep {d e : Draft} {key : String} (h : d.Knows key) (keeps : d.registry.Extends e.registry) :
    e.Knows key := by
  obtain ⟨id, known⟩ := h
  exact ⟨id, keeps.types key id known⟩

theorem not_knows_empty (key : String) : ¬ Knows {} key := by
  rintro ⟨id, known⟩
  cases known

/-! What is known after a step and was not before it. -/

theorem knows_internType {key name other : String} {c : Container} {kind : TypeKind} {d : Draft}
    (h : (internType key name c kind d).2.Knows other) : d.Knows other ∨ other = key := by
  cases known : d.registry.types.get? key with
  | some id =>
    rw [internType_of_some known] at h
    exact .inl h
  | none =>
    rw [internType_of_none known] at h
    obtain ⟨id, found⟩ := h
    change (d.registry.types.insert key _).get? other = some id at found
    rw [Interner.get?_insert] at found
    split at found
    · next same => exact .inr same
    · exact .inl ⟨id, found⟩

theorem knows_unknownTypeNamed {name other : String} {d : Draft} (h : (unknownTypeNamed name d).2.Knows other) :
    d.Knows other ∨ other = unknownKey name := by
  rcases knows_internType (d := (unknownNamespace d).2) h with ⟨id, early⟩ | same
  · exact .inl ⟨id, unknownNamespace_typeKeys d ▸ early⟩
  · exact .inr same

theorem knows_ensureTypeParameters {owner : TypeId} {key other : String} {names : List String} {d : Draft}
    (h : (ensureTypeParameters owner key names d).draft.Knows other) :
    d.Knows other ∨ ∃ p ∈ names, other = key ++ "." ++ p := by
  induction names generalizing d with
  | nil => exact .inl h
  | cons name names ih =>
    rcases ih h with early | ⟨p, listed, same⟩
    · rcases knows_internType early with early | same
      · exact .inl early
      · exact .inr ⟨name, List.mem_cons_self, same⟩
    · exact .inr ⟨p, List.mem_cons_of_mem name listed, same⟩

theorem ensureTypeParameters_knows {owner : TypeId} {key p : String} {names : List String} (d : Draft)
    (declared : p ∈ names) : (ensureTypeParameters owner key names d).draft.Knows (key ++ "." ++ p) := by
  have registered := ensureTypeParameters_registers owner key names d
  have listed := List.mem_map_of_mem (f := fun name =>
    (ensureTypeParameters owner key names d).draft.registry.types.get? (key ++ "." ++ name)) declared
  rw [registered] at listed
  obtain ⟨id, -, known⟩ := List.mem_map.mp listed
  exact ⟨id, known.symm⟩

/-! Nothing is made that was not sought. -/

/-- What a task is about is sought. -/
def Task.Wanted (table : BindingTable) (roots : List TypeIndex) : Task → Prop
  | .index i => Sought table roots i
  | .every is | .link _ is => ∀ i ∈ is, Sought table roots i
  | .place b | .binding b | .complete b _ => Reachable table roots b

theorem Resolves.makes_expected {table : BindingTable} {roots : List TypeIndex} {task : Task} {d e : Draft}
    {found : Found} {key : String} (run : Resolves table task d found e) (wanted : task.Wanted table roots)
    (h : e.Knows key) : d.Knows key ∨ Expected table roots key := by
  induction run with
  | @inside i b id d e known _ ih =>
    refine ih ?_ h
    rcases wanted with listed | ⟨c, reached, link⟩
    · exact .root listed known
    · exact .follow reached link known
  | beyond dangling =>
    rw [unknownType_eq] at h
    rcases knows_unknownTypeNamed h with early | rfl
    · exact .inl early
    · exact .inr (.unknown wanted dangling)
  | finished => exact .inl h
  | next _ _ ihFirst ihOthers =>
    rcases ihOthers (fun i mem => wanted i (List.mem_cons_of_mem _ mem)) h with early | expected
    · exact ihFirst (wanted _ List.mem_cons_self) early
    · exact .inr expected
  | unlinked => exact .inl h
  | link _ _ ihFirst ihOthers =>
    rcases ihOthers (fun i mem => wanted i (List.mem_cons_of_mem _ mem)) h with early | expected
    · exact ihFirst (wanted _ List.mem_cons_self) early
    · exact .inr expected
  | enclosed outer found _ ih => exact ih (wanted.declaring (enclosing?_some found)) h
  | free => exact .inl h
  | @parameterized b id _ _ d e f kind _ _ ihErased ihApplied =>
    have applied : f.Knows key := h
    rcases ihApplied (fun i mem => .inr ⟨b, wanted, .argument kind mem⟩) applied with early | expected
    · exact ihErased (fun i mem => .inr ⟨b, wanted, .erasure kind (Option.mem_toList.mp mem)⟩) early
    · exact .inr expected
  | @generic b id d kind =>
    rcases knows_ensureTypeParameters h with early | ⟨p, declared, rfl⟩
    · exact .inl early
    · exact .inr (.parameter wanted kind declared)
  | plain => exact .inl h
  | known => exact .inl h
  | met _ _ _ ihPlace => exact ihPlace wanted h
  | @made b c d e f g _ _ _ _ _ ihPlace ihLinks ihCompletion =>
    rcases ihCompletion wanted h with linked | expected
    · have links : ∀ i ∈ b.superclass.toList ++ b.interfaces, Sought table roots i := by
        intro i mem
        rcases List.mem_append.mp mem with mem | mem
        · exact .inr ⟨b, wanted, .superclass (Option.mem_toList.mp mem)⟩
        · exact .inr ⟨b, wanted, .interface mem⟩
      rcases ihLinks links linked with start | expected
      · rcases knows_internType (d := e) start with placed | rfl
        · exact ihPlace wanted placed
        · exact .inr (.binding wanted)
      · exact .inr expected
    · exact .inr expected

/-! Nothing is missed. -/

/-- All that the links of a binding lead to is known, and so are its type parameters. -/
structure Explored (table : BindingTable) (e : Draft) (b : TypeBinding) : Prop where
  links : ∀ i, Follows b i → e.Knows (indexKey table i)
  outer : ∀ outer, MemberOf table b outer → e.Knows (typeKey table outer)
  parameters : kindOf b = .generic b.isInterface [] →
    ∀ p ∈ b.typeParameters, e.Knows (typeKey table b ++ "." ++ p)

theorem Explored.keep {table : BindingTable} {d e : Draft} {b : TypeBinding} (h : Explored table d b)
    (keeps : d.registry.Extends e.registry) : Explored table e b :=
  ⟨fun i link => (h.links i link).keep keeps, fun outer member => (h.outer outer member).keep keeps,
    fun kind p declared => (h.parameters kind p declared).keep keeps⟩

def Task.places : Task → List TypeIndex
  | .index i => [i]
  | .every is | .link _ is => is
  | _ => []

theorem Resolves.knows_places {table : BindingTable} {task : Task} {d e : Draft} {found : Found}
    (run : Resolves table task d found e) : ∀ i ∈ task.places, e.Knows (indexKey table i) := by
  induction run with
  | @inside i b id d e known run ih =>
    intro j mem
    cases List.mem_singleton.mp mem
    exact ⟨id, (Resolves.inside known run).registers⟩
  | @beyond i d dangling =>
    intro j mem
    cases List.mem_singleton.mp mem
    exact ⟨_, (Resolves.beyond dangling).registers⟩
  | next _ others ihFirst ihOthers =>
    intro j mem
    rcases List.mem_cons.mp mem with rfl | mem
    · exact (ihFirst _ List.mem_cons_self).keep others.registry_extends
    · exact ihOthers j mem
  | @link s id i is d e f _ others ihFirst ihOthers =>
    intro j mem
    rcases List.mem_cons.mp mem with rfl | mem
    · exact (ihFirst _ List.mem_cons_self).keep (others.registry_extends (d := e.linkedTo s id))
    · exact ihOthers j mem
  | finished | unlinked | enclosed | free | parameterized | generic | plain | known | met | made => exact nofun

theorem Resolves.knows_outer {table : BindingTable} {b outer : TypeBinding} {d e : Draft} {found : Found}
    (run : Resolves table (.place b) d found e) (member : MemberOf table b outer) :
    e.Knows (typeKey table outer) := by
  cases run with
  | @enclosed _ id _ _ found enclosed run =>
    cases MemberOf.unique (enclosing?_some enclosed) member
    exact ⟨id, run.registers⟩
  | free free => exact absurd member (enclosing?_none free outer)

/-- What completing a type leaves known, besides its supertypes. -/
theorem Resolves.knows_completion {table : BindingTable} {b : TypeBinding} {s : TypeId} {d e : Draft} {found : Found}
    (run : Resolves table (.complete b s) d found e) :
    (kindOf b = .parameterized none [] → ∀ i ∈ b.erasure.toList ++ b.typeArguments, e.Knows (indexKey table i)) ∧
      (kindOf b = .generic b.isInterface [] → ∀ p ∈ b.typeParameters, e.Knows (typeKey table b ++ "." ++ p)) := by
  cases run with
  | parameterized kind erased applied =>
    refine ⟨fun _ i mem => ?_, fun other => absurd (kind.symm.trans other) (by simp)⟩
    rcases List.mem_append.mp mem with mem | mem
    · exact (erased.knows_places i mem).keep applied.registry_extends
    · exact applied.knows_places i mem
  | generic kind =>
    refine ⟨fun other => absurd (kind.symm.trans other) (by simp), fun _ p declared => ?_⟩
    exact ensureTypeParameters_knows d declared
  | plain notParameterized notGeneric =>
    exact ⟨fun kind => absurd kind notParameterized, fun kind => absurd kind notGeneric⟩

theorem Resolves.explored {table : BindingTable} {b : TypeBinding} {c : Container} {d e f g : Draft}
    (place : Resolves table (.place b) d (.place c) e)
    (links : Resolves table (.link ⟨e.repository.types.size⟩ (b.superclass.toList ++ b.interfaces))
      (started table b c e) .nothing f)
    (completion : Resolves table (.complete b ⟨e.repository.types.size⟩) f .nothing g) : Explored table g b := by
  obtain ⟨instance_, declared⟩ := completion.knows_completion
  have supertypes : ∀ i ∈ b.superclass.toList ++ b.interfaces, g.Knows (indexKey table i) :=
    fun i mem => (links.knows_places i mem).keep completion.registry_extends
  refine ⟨fun i link => ?_, fun outer member => ?_, declared⟩
  · cases link with
    | superclass extended => exact supertypes i (List.mem_append_left _ (Option.mem_toList.mpr extended))
    | interface implemented => exact supertypes i (List.mem_append_right _ implemented)
    | erasure kind erased => exact instance_ kind i (List.mem_append_left _ (Option.mem_toList.mpr erased))
    | argument kind given => exact instance_ kind i (List.mem_append_right _ given)
  · have started : (started table b c e).Knows (typeKey table outer) :=
      (place.knows_outer member).keep started_path.registry_extends
    exact (started.keep links.registry_extends).keep completion.registry_extends

def Task.Listed (table : BindingTable) : Task → Prop
  | .place b | .binding b | .complete b _ => b ∈ table.types
  | _ => True

/-- Every binding whose type a run has made is explored when the run returns. What is in progress meanwhile was known
before the run, so that nothing need be said of it. -/
theorem Resolves.explores {table : BindingTable} {task : Task} {d e : Draft} {found : Found} {x : TypeBinding}
    (run : Resolves table task d found e) (apart : KeysApart table) (ready : task.Listed table)
    (listed : x ∈ table.types) (h : e.Knows (typeKey table x)) :
    d.Knows (typeKey table x) ∨ Explored table e x := by
  induction run with
  | inside known _ ih => exact ih (List.mem_of_getElem? known) h
  | beyond =>
    rw [unknownType_eq] at h
    rcases knows_unknownTypeNamed h with early | same
    · exact .inl early
    · exact absurd same (apart.unknown x listed)
  | finished => exact .inl h
  | next _ others ihFirst ihOthers =>
    rcases ihOthers trivial h with early | explored
    · exact (ihFirst trivial early).imp_right (·.keep others.registry_extends)
    · exact .inr explored
  | unlinked => exact .inl h
  | @link s id i is d e f _ others ihFirst ihOthers =>
    rcases ihOthers trivial h with early | explored
    · exact (ihFirst trivial early).imp_right (·.keep (others.registry_extends (d := e.linkedTo s id)))
    · exact .inr explored
  | enclosed outer _ _ ih => exact ih outer.listed h
  | free => exact .inl h
  | @parameterized b id _ _ d e f _ _ applied ihErased ihApplied =>
    have explored : d.Knows (typeKey table x) ∨ Explored table f x := by
      rcases ihApplied trivial h with early | explored
      · exact (ihErased trivial early).imp_right (·.keep applied.registry_extends)
      · exact .inr explored
    exact explored.imp_right (·.keep (.refl _))
  | @generic b id d kind =>
    rcases knows_ensureTypeParameters h with early | ⟨p, declared, same⟩
    · exact .inl early
    · exact absurd same (apart.parameters x listed b ready kind p declared)
  | plain => exact .inl h
  | known => exact .inl h
  | met _ _ _ ihPlace => exact ihPlace ready h
  | @made b c d e f g _ place _ links completion ihPlace ihLinks ihCompletion =>
    have keeps := links.registry_extends.trans completion.registry_extends
    rcases ihCompletion ready h with linked | explored
    · rcases ihLinks trivial linked with start | explored
      · rcases knows_internType (d := e) start with placed | same
        · exact (ihPlace ready placed).imp_right (·.keep (started_path.registry_extends.trans keeps))
        · cases apart.eq_of_key listed ready same
          exact .inr (place.explored links completion)
      · exact .inr (explored.keep completion.registry_extends)
    · exact .inr explored

theorem Explored.knows_reachable {table : BindingTable} {roots : List TypeIndex} {e : Draft}
    (explored : ∀ b ∈ table.types, e.Knows (typeKey table b) → Explored table e b)
    (asked : ∀ i ∈ roots, e.Knows (indexKey table i)) {b : TypeBinding} (h : Reachable table roots b) :
    e.Knows (typeKey table b) := by
  have keyed : ∀ {i : TypeIndex} {c : TypeBinding}, table.types[i]? = some c → indexKey table i = typeKey table c := by
    intro i c known
    rw [indexKey, known]
  induction h with
  | root listed known => exact keyed known ▸ asked _ listed
  | follow source link known ih => exact keyed known ▸ (explored _ source.listed ih).links _ link
  | declaring source member ih => exact (explored _ source.listed ih).outer _ member

theorem Explored.knows_expected {table : BindingTable} {roots : List TypeIndex} {e : Draft}
    (explored : ∀ b ∈ table.types, e.Knows (typeKey table b) → Explored table e b)
    (asked : ∀ i ∈ roots, e.Knows (indexKey table i)) {key : String} (h : Expected table roots key) : e.Knows key := by
  cases h with
  | binding reached => exact knows_reachable explored asked reached
  | parameter reached kind declared =>
    exact (explored _ reached.listed (knows_reachable explored asked reached)).parameters kind _ declared
  | @unknown i sought dangling =>
    have unknown : indexKey table i = unknownKey unknownName := by rw [indexKey, dangling]
    rcases sought with listed | ⟨b, reached, link⟩
    · exact unknown ▸ asked i listed
    · exact unknown ▸ (explored b reached.listed (knows_reachable explored asked reached)).links i link

theorem resolveAll_knows {table : BindingTable} (apart : KeysApart table) (roots : List TypeIndex) (key : String) :
    (resolveAll table roots {}).draft.Knows key ↔ Expected table roots key := by
  have run := resolveAll_runs table roots {}
  constructor
  · intro h
    exact (run.makes_expected (fun i => .inl) h).resolve_left (not_knows_empty key)
  · apply Explored.knows_expected _ run.knows_places
    intro b listed h
    exact (run.explores apart trivial listed h).resolve_left (not_knows_empty _)

end Draft

namespace Operation

theorem applyAll_typeOfBinding (ctx : Context) (roots : List TypeIndex) (d : Draft) :
    applyAll ctx (roots.map .typeOfBinding) d = (Draft.resolveAll ctx.bindings roots d).draft := by
  induction roots generalizing d with
  | nil => rw [Draft.resolveAll]; rfl
  | cons i is ih =>
    rw [Draft.resolveAll, List.map_cons, applyAll_cons, ih]
    rfl

theorem contains_iff_knows {d : Draft} {key : String} : d.registry.types.contains key = true ↔ d.Knows key :=
  Option.isSome_iff_exists

/-- Where the keys of the table are apart, the types that are registered after some places have been resolved are
exactly those of the bindings that links lead to, the parameters of the generic ones, and the unknown type if and
only if some link dangles. So it makes no difference in which order, or how often, the places are asked for. -/
theorem typeOfBinding_closure (ctx : Context) (apart : KeysApart ctx.bindings) (roots : List TypeIndex) :
    let registered := (applyAll ctx (roots.map .typeOfBinding) {}).registry.types
    (∀ key, registered.contains key = true ↔ Expected ctx.bindings roots key) ∧
      (registered.contains (unknownKey unknownName) = true ↔
        ∃ i, Sought ctx.bindings roots i ∧ ctx.bindings.types[i]? = none) ∧
      ∀ others : List TypeIndex, (∀ i, i ∈ others ↔ i ∈ roots) → ∀ key,
        (applyAll ctx (others.map .typeOfBinding) {}).registry.types.contains key = registered.contains key := by
  intro registered
  have exact_ : ∀ (is : List TypeIndex) (key : String),
      (applyAll ctx (is.map .typeOfBinding) {}).registry.types.contains key = true ↔
        Expected ctx.bindings is key := by
    intro is key
    rw [contains_iff_knows, applyAll_typeOfBinding]
    exact Draft.resolveAll_knows apart is key
  refine ⟨exact_ roots, (exact_ roots _).trans ⟨fun h => ?_, fun ⟨i, sought, dangling⟩ => .unknown sought dangling⟩,
    fun others same key => ?_⟩
  · generalize key_eq : unknownKey unknownName = key at h
    cases h with
    | binding reached => exact absurd key_eq.symm (apart.unknown _ reached.listed)
    | parameter reached kind declared =>
      exact absurd key_eq.symm (apart.unknownParameter _ reached.listed kind _ declared)
    | unknown sought dangling => exact ⟨_, sought, dangling⟩
  · rw [Bool.eq_iff_iff, exact_, exact_]
    exact ⟨(·.mono fun i => (same i).mp), (·.mono fun i => (same i).mpr)⟩

theorem enumContext_apart : KeysApart enumContext.bindings where
  bindings := by decide +kernel
  parameters := by decide +kernel
  unknown := by decide +kernel
  unknownParameter := by decide +kernel

theorem typeOfBinding_closure_enum :
    KeysApart enumContext.bindings ∧
    let registered := (applyAll enumContext ([3, 1].map .typeOfBinding) {}).registry.types
    (∀ key, registered.contains key = true ↔ Expected enumContext.bindings [3, 1] key) ∧
      (registered.contains (unknownKey unknownName) = true ↔
        ∃ i, Sought enumContext.bindings [3, 1] i ∧ enumContext.bindings.types[i]? = none) ∧
      ∀ others : List TypeIndex, (∀ i, i ∈ others ↔ i ∈ [3, 1]) → ∀ key,
        (applyAll enumContext (others.map .typeOfBinding) {}).registry.types.contains key =
          registered.contains key :=
  ⟨enumContext_apart, typeOfBinding_closure enumContext enumContext_apart [3, 1]⟩

end Operation

end Famix
