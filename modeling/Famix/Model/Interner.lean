import Famix.Model.Id

/-!
Tables from names to ids. A name is given an id once and keeps it.
-/
namespace Famix

structure Interner (kind : Kind) where
  entries : List (String × ElementId kind) := []
  deriving Repr

/-- The id of a name, and whether it is new. -/
inductive Ensured (kind : Kind) where
  | existing (id : ElementId kind)
  | created (id : ElementId kind)
  deriving DecidableEq, Repr

namespace Ensured

def id : Ensured kind → ElementId kind
  | .existing id => id
  | .created id => id

def isCreated : Ensured kind → Bool
  | .existing _ => false
  | .created _ => true

end Ensured

namespace Interner

variable {kind : Kind}

def get? (t : Interner kind) (name : String) : Option (ElementId kind) := t.entries.lookup name

def contains (t : Interner kind) (name : String) : Bool := (t.get? name).isSome

def size (t : Interner kind) : Nat := t.entries.length

def isEmpty (t : Interner kind) : Bool := t.entries.isEmpty

def insert (t : Interner kind) (name : String) (id : ElementId kind) : Interner kind :=
  ⟨(name, id) :: t.entries⟩

/-- The id of a name. A new id is allocated only if the name has none. -/
def ensure [Monad m] (t : Interner kind) (name : String) (allocate : m (ElementId kind)) :
    m (Ensured kind × Interner kind) := do
  match t.get? name with
  | some id => return (.existing id, t)
  | none =>
    let id ← allocate
    return (.created id, t.insert name id)

@[simp] theorem get?_insert (t : Interner kind) (name other : String) (id : ElementId kind) :
    (t.insert name id).get? other = if other = name then some id else t.get? other := by
  by_cases h : other = name
  · simp [get?, insert, h]
  · have : (other == name) = false := by simp [h]
    simp [get?, insert, List.lookup_cons, h, this]

/-- Every name of `t` has the same id in `u`. -/
def Extends (t u : Interner kind) : Prop :=
  ∀ name id, t.get? name = some id → u.get? name = some id

theorem Extends.refl (t : Interner kind) : t.Extends t := fun _ _ h => h

theorem Extends.trans {t u v : Interner kind} (h : t.Extends u) (k : u.Extends v) : t.Extends v :=
  fun name id known => k name id (h name id known)

theorem extends_insert {t : Interner kind} {name : String} (fresh : t.get? name = none)
    (id : ElementId kind) : t.Extends (t.insert name id) := by
  intro other known h
  rw [get?_insert]
  split
  · next same => rw [same, fresh] at h; cases h
  · exact h

section Ensure

variable (t : Interner kind) (name : String) (allocate : StateM σ (ElementId kind)) (s : σ)

theorem extends_ensure : t.Extends (t.ensure name allocate s).1.2 := by
  unfold ensure
  cases known : t.get? name with
  | some id => exact .refl t
  | none => exact extends_insert known _

/-- Afterwards the name leads to the id returned. -/
theorem get?_ensure : (t.ensure name allocate s).1.2.get? name = some (t.ensure name allocate s).1.1.id := by
  unfold ensure
  cases known : t.get? name with
  | some id => exact known
  | none =>
    change (t.insert name _).get? name = _
    simp
    rfl

end Ensure

end Interner

/-- The names of all entities that can be found again by their name. -/
structure Registry where
  namespaces : Interner .ns := {}
  types : Interner .type := {}
  methods : Interner .method := {}
  attributes : Interner .attribute := {}
  parameters : Interner .parameter := {}
  deriving Repr

end Famix
