import Famix.Proofs.Order
import Mathlib.Logic.ExistsUnique

/-!
The registry and the repository agree. An element is registered when it is inserted, under a name that was free, and
what is registered is never taken back; only initializers are inserted without a name. So the names of each table and
the elements of its kind correspond one to one, whatever the history.
-/
namespace Famix

open Repository (Holds)

namespace Interner

/-- The names of a table and the elements listed correspond one to one. -/
structure Matches (t : Interner kind) (listed : ElementId kind → Prop) : Prop where
  once : (t.entries.map Prod.fst).Nodup
  leads : ∀ name id, t.get? name = some id → listed id
  named : ∀ id, listed id → ∃! name, t.get? name = some id

variable {t : Interner kind} {listed more : ElementId kind → Prop}

theorem not_mem_names {name : String} (fresh : t.get? name = none) : name ∉ t.entries.map Prod.fst := by
  intro mem
  obtain ⟨entry, inside, rfl⟩ := List.mem_map.mp mem
  have differs := List.lookup_eq_none_iff.mp fresh entry inside
  simp at differs

theorem Matches.empty (none : ∀ id, ¬ listed id) : Matches {} listed :=
  ⟨.nil, nofun, fun id mem => absurd mem (none id)⟩

/-- Two names lead to one element only if they are the same. -/
theorem Matches.eq_iff (h : t.Matches listed) {name other : String} {id found : ElementId kind}
    (known : t.get? name = some id) (also : t.get? other = some found) : id = found ↔ name = other := by
  constructor
  · rintro rfl
    obtain ⟨own, -, unique⟩ := h.named id (h.leads name id known)
    exact (unique name known).trans (unique other also).symm
  · rintro rfl
    exact Option.some.inj (known.symm.trans also)

theorem Matches.congr (h : t.Matches listed) (same : ∀ id, more id ↔ listed id) : t.Matches more :=
  ⟨h.once, fun name id known => (same id).mpr (h.leads name id known), fun id mem => h.named id ((same id).mp mem)⟩

theorem Matches.insert (h : t.Matches listed) {name : String} {id : ElementId kind} (fresh : t.get? name = none)
    (new : ¬ listed id) (grown : ∀ x, more x ↔ listed x ∨ x = id) : (t.insert name id).Matches more := by
  refine ⟨List.nodup_cons.mpr ⟨not_mem_names fresh, h.once⟩, fun other x known => ?_, fun x mem => ?_⟩
  · rw [get?_insert] at known
    split at known
    · exact (grown x).mpr (.inr (Option.some.inj known).symm)
    · exact (grown x).mpr (.inl (h.leads other x known))
  · rcases (grown x).mp mem with old | rfl
    · obtain ⟨own, known, unique⟩ := h.named x old
      refine ⟨own, extends_insert fresh id own x known, fun other found => ?_⟩
      dsimp only at found
      rw [get?_insert] at found
      split at found
      · exact absurd (Option.some.inj found ▸ old) new
      · exact unique other found
    · refine ⟨name, by simp, fun other found => ?_⟩
      dsimp only at found
      rw [get?_insert] at found
      split at found
      · assumption
      · exact absurd (h.leads other x found) new

end Interner

namespace Repository

/-- A method that can be found by its name; initializers cannot. -/
def Findable (r : Repository) (id : MethodId) : Prop := ∃ m, r.method? id = some m ∧ m.kind ≠ .initializer

variable {r s : Repository}

theorem lt_size_push (xs : Array α) (x : α) (id : ElementId kind) :
    id.index < (xs.push x).size ↔ id.index < xs.size ∨ id = ⟨xs.size⟩ := by
  obtain ⟨index⟩ := id
  rw [Array.size_push, ElementId.mk.injEq]
  exact Nat.lt_succ_iff_lt_or_eq

theorem not_findable_size : ¬ r.Findable ⟨r.methods.size⟩ := by
  rintro ⟨m, known, -⟩
  exact absurd (holds_method known) (Nat.lt_irrefl _)

theorem findable_push {m : MethodEntity} (pushed : s.methods = r.methods.push m) (id : MethodId) :
    s.Findable id ↔ r.Findable id ∨ id = ⟨r.methods.size⟩ ∧ m.kind ≠ .initializer := by
  obtain ⟨index⟩ := id
  by_cases last : index = r.methods.size
  · subst last
    simp [Findable, method?, pushed]
  · simp [Findable, method?, pushed, Array.getElem?_push, last]

theorem findable_updateMethod (id : MethodId) (f : MethodEntity → MethodEntity) (kept : ∀ m, (f m).kind = m.kind)
    (other : MethodId) : (r.updateMethod id f).Findable other ↔ r.Findable other := by
  by_cases same : id.index = other.index
  · simp only [Findable, method?, updateMethod, Array.getElem?_modify, same, if_true, Option.map_eq_some_iff]
    constructor
    · rintro ⟨_, ⟨m, known, rfl⟩, ordinary⟩
      exact ⟨m, known, kept m ▸ ordinary⟩
    · rintro ⟨m, known, ordinary⟩
      exact ⟨f m, ⟨m, known, rfl⟩, (kept m).symm ▸ ordinary⟩
  · simp [Findable, method?, updateMethod, Array.getElem?_modify, same]

end Repository

theorem Draft.methodKind_ne (isConstructor : Bool) : methodKind isConstructor ≠ .initializer := by
  cases isConstructor <;> decide

/-- Each table of the registry matches the elements of its kind, that of methods those that are no initializers. -/
structure Registry.Matches (r : Repository) (g : Registry) : Prop where
  namespaces : g.namespaces.Matches fun id => r.Holds id.element
  types : g.types.Matches fun id => r.Holds id.element
  methods : g.methods.Matches r.Findable
  attributes : g.attributes.Matches fun id => r.Holds id.element
  parameters : g.parameters.Matches fun id => r.Holds id.element

namespace Registry.Matches

theorem empty : ({} : Registry).Matches {} := by
  have absent : ∀ e : Element, ¬ ({} : Repository).Holds e := by
    rintro ⟨kind, index⟩ there
    cases kind <;> exact absurd there (Nat.not_lt_zero _)
  refine ⟨.empty fun _ => absent _, .empty fun _ => absent _, .empty ?_, .empty fun _ => absent _,
    .empty fun _ => absent _⟩
  rintro id ⟨m, known, -⟩
  exact absent _ (Repository.holds_method known)

theorem update {d : Draft} {c : Change} (h : d.registry.Matches d.repository) (update : c.insertion? = none)
    (methods : ∀ id, (c.apply d).repository.Findable id ↔ d.repository.Findable id) :
    d.registry.Matches (c.apply d).repository := by
  have same (e : Element) : (c.apply d).repository.Holds e ↔ d.repository.Holds e := by
    rw [Holds, c.count_of_update update]
    rfl
  exact ⟨h.namespaces.congr fun _ => same _, h.types.congr fun _ => same _, h.methods.congr methods,
    h.attributes.congr fun _ => same _, h.parameters.congr fun _ => same _⟩

theorem change {d : Draft} (h : d.registry.Matches d.repository) (c : Change) :
    (c.apply d).registry.Matches (c.apply d).repository := by
  have result := c.result d
  generalize c.apply d = e at result ⊢
  cases result with
  | known => exact h
  | space fresh =>
    exact { h with namespaces := h.namespaces.insert fresh (Nat.lt_irrefl _) (Repository.lt_size_push _ _) }
  | type fresh => exact { h with types := h.types.insert fresh (Nat.lt_irrefl _) (Repository.lt_size_push _ _) }
  | method fresh =>
    refine { h with methods := h.methods.insert fresh Repository.not_findable_size fun id => ?_ }
    rw [Repository.findable_push rfl, and_iff_left (Draft.methodKind_ne _)]
  | field fresh =>
    exact { h with attributes := h.attributes.insert fresh (Nat.lt_irrefl _) (Repository.lt_size_push _ _) }
  | parameter fresh =>
    exact { h with parameters := h.parameters.insert fresh (Nat.lt_irrefl _) (Repository.lt_size_push _ _) }
  | direct c direct =>
    cases c with
    | space | type | method | field | parameter => cases direct
    | initializer parent modifiers =>
      refine { h with methods := h.methods.congr fun id => ?_ }
      rw [Repository.findable_push rfl]
      simp
    | localVariable | inheritance | invocation | access | remember => exact { h with }
    | methodBound | methodTyped | methodDeclared =>
      exact h.update rfl (Repository.findable_updateMethod _ _ fun _ => rfl)
    | typeModifiers | typeKind | typeOpened | typeDeclared | attributeDeclared | written =>
      exact h.update rfl fun _ => Iff.rfl

end Registry.Matches

/-- After any history each table of the registry and the elements of its kind correspond one to one: every element has
exactly one name in it, and no name leads to anything else. Initializers alone have no name. -/
theorem Operation.registry_matches (ctx : Context) (history : List Operation) :
    (applyAll ctx history {}).registry.Matches (applyAll ctx history {}).repository :=
  applyAll_invariant (P := fun d => d.registry.Matches d.repository) ctx (fun c _ h => h.change c) (fun _ _ h => h)
    history {} .empty

end Famix
