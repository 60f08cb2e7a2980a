import Famix.Proofs.Enrichment
import Mathlib.Data.Fintype.Sum

/-!
Chains of containers. Where every chain ends, the name of an element is that of its container, a dot and its own
name, and the name does not change when more is added.
-/
namespace Famix

namespace Grown

variable {R S : Nat → α → α → Prop} {xs ys zs : Array α}

theorem trans (join : ∀ i x y z, R i x y → R i y z → R i x z) (h : Grown R xs ys) (k : Grown R ys zs) :
    Grown R xs zs := by
  intro i x known
  obtain ⟨y, at_y, first⟩ := h i x known
  obtain ⟨z, at_z, second⟩ := k i y at_y
  exact ⟨z, at_z, join i x y z first second⟩

end Grown

namespace Repository

def Holds (r : Repository) (e : Element) : Prop := e.index < r.count e.kind

theorem Holds.method {r : Repository} {id : MethodId} (h : r.Holds id.element) : ∃ m, r.method? id = some m :=
  ⟨_, Array.getElem?_eq_getElem h⟩

theorem holds_namespace {r : Repository} {id : NamespaceId} {n : NamespaceEntity} (known : r.ns? id = some n) :
    r.Holds id.element := (Array.getElem?_eq_some_iff.mp known).1

theorem holds_type {r : Repository} {id : TypeId} {t : TypeEntity} (known : r.type? id = some t) :
    r.Holds id.element := (Array.getElem?_eq_some_iff.mp known).1

theorem holds_method {r : Repository} {id : MethodId} {m : MethodEntity} (known : r.method? id = some m) :
    r.Holds id.element := (Array.getElem?_eq_some_iff.mp known).1

/-- Nothing is lost, and what names depend on is in `s` as it is in `r`. -/
structure Keeps (r s : Repository) : Prop where
  counts : ∀ kind, r.count kind ≤ s.count kind
  namespaces : Grown (fun _ a b => b.name = a.name) r.namespaces s.namespaces
  types : Grown (fun _ a b => b.name = a.name ∧ b.container = a.container) r.types s.types
  methods : Grown (fun _ a b => b.signature = a.signature ∧ b.parentType = a.parentType) r.methods s.methods
  attributes : Grown (fun _ a b => b.name = a.name ∧ b.parentType = a.parentType) r.attributes s.attributes
  parameters : Grown (fun _ => Eq) r.parameters s.parameters

theorem Keeps.refl (r : Repository) : Keeps r r where
  counts _ := Nat.le_refl _
  namespaces := fun _ n known => ⟨n, known, rfl⟩
  types := .refl (fun _ _ => ⟨rfl, rfl⟩) _
  methods := .refl (fun _ _ => ⟨rfl, rfl⟩) _
  attributes := .refl (fun _ _ => ⟨rfl, rfl⟩) _
  parameters := .refl (fun _ _ => rfl) _

theorem Keeps.trans {r s t : Repository} (h : Keeps r s) (k : Keeps s t) : Keeps r t where
  counts kind := Nat.le_trans (h.counts kind) (k.counts kind)
  namespaces := h.namespaces.trans (fun _ _ _ _ p q => q.trans p) k.namespaces
  types := h.types.trans (fun _ _ _ _ p q => ⟨q.1.trans p.1, q.2.trans p.2⟩) k.types
  methods := h.methods.trans (fun _ _ _ _ p q => ⟨q.1.trans p.1, q.2.trans p.2⟩) k.methods
  attributes := h.attributes.trans (fun _ _ _ _ p q => ⟨q.1.trans p.1, q.2.trans p.2⟩) k.attributes
  parameters := h.parameters.trans (fun _ _ _ _ p q => p.trans q) k.parameters

theorem Keeps.holds {r s : Repository} (h : Keeps r s) {e : Element} (there : r.Holds e) : s.Holds e :=
  Nat.lt_of_lt_of_le there (h.counts e.kind)

theorem containerNameWithin_type {r : Repository} {id : TypeId} {t : TypeEntity} (known : r.type? id = some t)
    (n : Nat) : r.containerNameWithin (n + 1) (.type id) = joinName (r.containerNameWithin n t.container) t.name := by
  simp only [containerNameWithin, known]

theorem containerNameWithin_method {r : Repository} {id : MethodId} {m : MethodEntity}
    (known : r.method? id = some m) (n : Nat) : r.containerNameWithin (n + 1) (.method id) =
      joinName (r.containerNameWithin n (.type m.parentType)) m.signature := by
  simp only [containerNameWithin, known]

/-- The chain of containers from `c` ends within so many steps. -/
inductive Settled (r : Repository) : Nat → Container → Prop where
  | ns {n : Nat} {id : NamespaceId} {x : NamespaceEntity} (known : r.ns? id = some x) : Settled r (n + 1) (.ns id)
  | type {n : Nat} {id : TypeId} {t : TypeEntity} (known : r.type? id = some t)
      (outer : Settled r n t.container) : Settled r (n + 1) (.type id)
  | method {n : Nat} {id : MethodId} {m : MethodEntity} (known : r.method? id = some m)
      (outer : Settled r n (.type m.parentType)) : Settled r (n + 1) (.method id)

namespace Settled

variable {r s : Repository} {n m : Nat} {c : Container}

theorem mono (h : Settled r n c) (le : n ≤ m) : Settled r m c := by
  induction h generalizing m with
  | ns known =>
    obtain ⟨m, rfl⟩ := Nat.exists_eq_add_of_le' (Nat.le_trans (Nat.succ_pos _) le)
    exact .ns known
  | type known _ ih =>
    obtain ⟨m, rfl⟩ := Nat.exists_eq_add_of_le' (Nat.le_trans (Nat.succ_pos _) le)
    exact .type known (ih (Nat.le_of_succ_le_succ le))
  | method known _ ih =>
    obtain ⟨m, rfl⟩ := Nat.exists_eq_add_of_le' (Nat.le_trans (Nat.succ_pos _) le)
    exact .method known (ih (Nat.le_of_succ_le_succ le))

theorem name_eq (h : Settled r n c) (le : n ≤ m) : r.containerNameWithin m c = r.containerNameWithin n c := by
  induction h generalizing m with
  | ns known =>
    obtain ⟨m, rfl⟩ := Nat.exists_eq_add_of_le' (Nat.le_trans (Nat.succ_pos _) le)
    simp only [containerNameWithin]
  | type known _ ih =>
    obtain ⟨m, rfl⟩ := Nat.exists_eq_add_of_le' (Nat.le_trans (Nat.succ_pos _) le)
    rw [containerNameWithin_type known, containerNameWithin_type known, ih (Nat.le_of_succ_le_succ le)]
  | method known _ ih =>
    obtain ⟨m, rfl⟩ := Nat.exists_eq_add_of_le' (Nat.le_trans (Nat.succ_pos _) le)
    rw [containerNameWithin_method known, containerNameWithin_method known, ih (Nat.le_of_succ_le_succ le)]

theorem keep (h : Settled r n c) (keeps : r.Keeps s) :
    Settled s n c ∧ s.containerNameWithin n c = r.containerNameWithin n c := by
  induction h with
  | @ns n id x known =>
    obtain ⟨y, kept, same⟩ := keeps.namespaces id.index x known
    have kept : s.ns? id = some y := kept
    exact ⟨.ns kept, by simp only [containerNameWithin, known, kept, same]⟩
  | @type n id t known _ ih =>
    obtain ⟨u, kept, name, container⟩ := keeps.types id.index t known
    have kept : s.type? id = some u := kept
    refine ⟨.type kept (container ▸ ih.1), ?_⟩
    rw [containerNameWithin_type kept, containerNameWithin_type known, name, container, ih.2]
  | @method n id x known _ ih =>
    obtain ⟨y, kept, signature, parent⟩ := keeps.methods id.index x known
    have kept : s.method? id = some y := kept
    refine ⟨.method kept (parent ▸ ih.1), ?_⟩
    rw [containerNameWithin_method kept, containerNameWithin_method known, signature, parent, ih.2]

end Settled

theorem Settled.holds {r : Repository} {n : Nat} {c : Container} (h : Settled r n c) : r.Holds c.element := by
  cases h with
  | ns known => exact holds_namespace known
  | type known _ => exact holds_type known
  | method known _ => exact holds_method known

theorem Settled.container_holds {r : Repository} {n : Nat} {id : TypeId} {t : TypeEntity}
    (h : Settled r n (.type id)) (known : r.type? id = some t) : r.Holds t.container.element := by
  cases h with
  | type known' outer =>
    cases known.symm.trans known'
    exact outer.holds

theorem Settled.typeName_eq {r : Repository} {id : TypeId} {t : TypeEntity}
    (h : Settled r (r.types.size + r.methods.size + 1) (.type id)) (known : r.type? id = some t) :
    r.typeName id = joinName (r.containerName t.container) t.name := by
  cases h with
  | type known' outer =>
    cases known.symm.trans known'
    rw [typeName, containerName, containerNameWithin_type known, ← outer.name_eq (Nat.le_succ _)]
    rfl

theorem Settled.containerName_keep {r s : Repository} {c : Container}
    (h : Settled r (r.types.size + r.methods.size + 1) c) (keeps : r.Keeps s) :
    s.containerName c = r.containerName c := by
  obtain ⟨settled, same⟩ := h.keep keeps
  have more : r.types.size + r.methods.size + 1 ≤ s.types.size + s.methods.size + 1 :=
    Nat.succ_le_succ (Nat.add_le_add (keeps.counts .type) (keeps.counts .method))
  exact (settled.name_eq more).trans same

/-- The containers around `c` are there, up to a namespace. -/
inductive Grounded (r : Repository) : Container → Prop where
  | ns {id : NamespaceId} {x : NamespaceEntity} (known : r.ns? id = some x) : Grounded r (.ns id)
  | type {id : TypeId} {t : TypeEntity} (known : r.type? id = some t) (outer : Grounded r t.container) :
      Grounded r (.type id)
  | method {id : MethodId} {m : MethodEntity} (known : r.method? id = some m)
      (outer : Grounded r (.type m.parentType)) : Grounded r (.method id)

theorem Grounded.settled {r : Repository} {c : Container} (h : r.Grounded c) : ∃ n, r.Settled n c := by
  induction h with
  | ns known => exact ⟨1, .ns known⟩
  | type known _ ih => exact ih.imp' _ fun _ outer => .type known outer
  | method known _ ih => exact ih.imp' _ fun _ outer => .method known outer

theorem Settled.grounded {r : Repository} {n : Nat} {c : Container} (h : r.Settled n c) : r.Grounded c := by
  induction h with
  | ns known => exact .ns known
  | type known _ ih => exact .type known ih
  | method known _ ih => exact .method known ih

/-- The chain from `c` ends after so many types and methods, and not before. -/
def Depth (r : Repository) (n : Nat) (c : Container) : Prop := r.Settled (n + 1) c ∧ ¬ r.Settled n c

namespace Depth

variable {r : Repository} {n m : Nat} {c : Container}

theorem unique (h : r.Depth n c) (k : r.Depth m c) : n = m := by
  rcases Nat.lt_trichotomy n m with less | same | more
  · exact absurd (h.1.mono less) k.2
  · exact same
  · exact absurd (k.1.mono more) h.2

theorem outer (h : r.Depth (n + 1) c) : ∃ x, r.Depth n x := by
  obtain ⟨settled, least⟩ := h
  cases settled with
  | ns known => exact absurd (.ns known) least
  | type known outer => exact ⟨_, outer, fun less => least (.type known less)⟩
  | method known outer => exact ⟨_, outer, fun less => least (.method known less)⟩

theorem below (h : r.Depth n c) (le : m ≤ n) : ∃ x, r.Depth m x := by
  induction n generalizing c with
  | zero =>
    cases Nat.le_zero.mp le
    exact ⟨c, h⟩
  | succ n ih =>
    rcases Nat.le_succ_iff.mp le with le | rfl
    · obtain ⟨x, outer⟩ := h.outer
      exact ih outer le
    · exact ⟨c, h⟩

/-- A type or a method by its place. -/
def inner : Fin r.types.size ⊕ Fin r.methods.size → Container
  | .inl i => .type ⟨i⟩
  | .inr i => .method ⟨i⟩

theorem exists_inner (h : r.Depth (n + 1) c) : ∃ x, inner (r := r) x = c := by
  obtain ⟨settled, least⟩ := h
  cases settled with
  | ns known => exact absurd (.ns known) least
  | type known _ => exact ⟨.inl ⟨_, holds_type known⟩, rfl⟩
  | method known _ => exact ⟨.inr ⟨_, holds_method known⟩, rfl⟩

/-- The elements of a chain have different depths, so that there are at least as many types and methods. -/
theorem le (h : r.Depth n c) : n ≤ r.types.size + r.methods.size := by
  have each : ∀ k : Fin n, ∃ x, r.Depth (k + 1) (inner (r := r) x) := by
    intro k
    obtain ⟨x, depth⟩ := h.below k.isLt
    obtain ⟨y, rfl⟩ := depth.exists_inner
    exact ⟨y, depth⟩
  choose place depth using each
  have injective : Function.Injective place := fun i j same =>
    Fin.ext (Nat.succ.inj ((depth i).unique (same ▸ depth j)))
  simpa using Fintype.card_le_of_injective place injective

end Depth

theorem Settled.within {r : Repository} {n : Nat} {c : Container} (h : r.Settled n c) :
    r.Settled (r.types.size + r.methods.size + 1) c := by
  induction n with
  | zero => cases h
  | succ n ih =>
    by_cases sooner : r.Settled n c
    · exact ih sooner
    · exact h.mono (Nat.succ_le_succ (Depth.le ⟨h, sooner⟩))

/-- All chains of containers end; none is longer than there are types and methods. -/
def Rooted (r : Repository) : Prop :=
  ∀ c : Container, r.Holds c.element → Settled r (r.types.size + r.methods.size + 1) c

theorem rooted_iff {r : Repository} : r.Rooted ↔ ∀ c : Container, r.Holds c.element → r.Grounded c :=
  ⟨fun h c there => (h c there).grounded, fun h c there => (h c there).settled.elim fun _ settled => settled.within⟩

namespace Rooted

variable {r s : Repository}

theorem method_parent (h : Rooted r) {id : MethodId} {m : MethodEntity} (known : r.method? id = some m) :
    Settled r (r.types.size + r.methods.size) (.type m.parentType) := by
  cases h (.method id) (holds_method known) with
  | method known' outer =>
    cases known.symm.trans known'
    exact outer

theorem typeName_eq (h : Rooted r) {id : TypeId} {t : TypeEntity} (known : r.type? id = some t) :
    r.typeName id = joinName (r.containerName t.container) t.name :=
  (h (.type id) (holds_type known)).typeName_eq known

theorem methodName_eq (h : Rooted r) {id : MethodId} {m : MethodEntity} (known : r.method? id = some m) :
    r.methodName id = joinName (r.typeName m.parentType) m.signature := by
  have outer := (h.method_parent known).name_eq (Nat.le_succ _)
  rw [methodName, containerName, containerNameWithin_method known, ← outer]
  rfl

theorem containerName_keep (h : Rooted r) (keeps : r.Keeps s) {c : Container} (there : r.Holds c.element) :
    s.containerName c = r.containerName c := (h c there).containerName_keep keeps

theorem typeName_keep (h : Rooted r) (keeps : r.Keeps s) {id : TypeId} (there : r.Holds id.element) :
    s.typeName id = r.typeName id := h.containerName_keep keeps (c := .type id) there

theorem methodName_keep (h : Rooted r) (keeps : r.Keeps s) {id : MethodId} (there : r.Holds id.element) :
    s.methodName id = r.methodName id := h.containerName_keep keeps (c := .method id) there

theorem keep (h : Rooted r) (keeps : r.Keeps s)
    (new : ∀ c : Container, s.Holds c.element → ¬ r.Holds c.element →
      Settled s (s.types.size + s.methods.size + 1) c) : Rooted s := by
  intro c there
  by_cases old : r.Holds c.element
  · exact ((h c old).keep keeps).1.mono
      (Nat.succ_le_succ (Nat.add_le_add (keeps.counts .type) (keeps.counts .method)))
  · exact new c there old

end Rooted

end Repository

end Famix
