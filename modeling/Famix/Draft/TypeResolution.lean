import Famix.Draft.Basic
import Famix.Draft.TypeKey

/-!
Resolution of bound types. A type is registered before the types it refers to are resolved, so that a reference
back to it finds it. Each resolution either leads to a class with a shorter name or happens after one more key of
the table has been registered; that is why it ends, however the bindings refer to each other.
-/
namespace Famix

open Java (BindingTable TypeBinding TypeIndex)

namespace Draft

/-- A value found in a draft, and the draft after finding it. No type key is lost on the way. -/
structure Reached (d : Draft) (α : Type) where
  value : α
  draft : Draft
  keeps : KeepsTypes d draft

/-- How many bindings of the table have no type yet. -/
def pending (table : BindingTable) (d : Draft) : Nat :=
  table.types.countP fun b => (d.registry.types.get? (typeKey table b)).isNone

theorem countP_lt_countP {p q : α → Bool} {l : List α} {a : α} (imp : ∀ x, p x = true → q x = true)
    (mem : a ∈ l) (hq : q a = true) (hp : p a = false) : l.countP p < l.countP q := by
  induction l with
  | nil => cases mem
  | cons x l ih =>
    have tail : l.countP p ≤ l.countP q := List.countP_mono_left fun y _ => imp y
    rcases List.mem_cons.mp mem with rfl | mem
    · simp only [List.countP_cons, hq, hp]
      simp only [if_true, Bool.false_eq_true, if_false]
      omega
    · have := ih mem
      have head : (if p x = true then 1 else 0) ≤ (if q x = true then 1 else 0) := by
        cases hx : p x
        · simp
        · simp [imp x hx]
      simp only [List.countP_cons]
      omega

theorem isNone_of_keeps {d e : Draft} (keeps : KeepsTypes d e) (key : String)
    (h : (e.registry.types.get? key).isNone = true) : (d.registry.types.get? key).isNone = true := by
  cases known : d.registry.types.get? key with
  | none => rfl
  | some id => rw [keeps key id known] at h; cases h

theorem pending_le {d e : Draft} (table : BindingTable) (keeps : KeepsTypes d e) :
    pending table e ≤ pending table d :=
  List.countP_mono_left fun b _ => isNone_of_keeps keeps (typeKey table b)

/-- Registering the key of a listed binding leaves fewer of them to do. -/
theorem pending_lt {d e : Draft} {table : BindingTable} {b : TypeBinding} {id : TypeId}
    (keeps : KeepsTypes d e) (listed : b ∈ table.types)
    (fresh : d.registry.types.get? (typeKey table b) = none)
    (registered : e.registry.types.get? (typeKey table b) = some id) :
    pending table e < pending table d :=
  countP_lt_countP (fun b => isNone_of_keeps keeps (typeKey table b)) listed
    (by rw [fresh]; rfl) (by rw [registered]; rfl)

/-- The measure goes down when no more is pending and the second part is smaller. -/
theorem lex_of_le {m n : Nat} {p q : Nat × Nat} (h : m ≤ n) (k : Prod.Lex (· < ·) (· < ·) p q) :
    Prod.Lex (· < ·) (Prod.Lex (· < ·) (· < ·)) (2 * m + 1, p) (2 * n + 1, q) := by
  rcases Nat.lt_or_eq_of_le h with h | rfl
  · exact Prod.Lex.left _ _ (by omega)
  · exact Prod.Lex.right _ k

theorem double_succ_lt {m n : Nat} (h : m < n) : 2 * m + 1 < 2 * n := by omega

/-- The type parameters of a generic type. -/
def ensureTypeParameters (owner : TypeId) (ownerKey : String) :
    List String → (d : Draft) → Reached d (List TypeId)
  | [], d => ⟨[], d, .refl d⟩
  | name :: names, d =>
    let first := internType (ownerKey ++ "." ++ name) name (.type owner) .typeParameter d
    let others := ensureTypeParameters owner ownerKey names first.2
    ⟨first.1.id :: others.value, others.draft, KeepsTypes.trans (internType_keeps _ _ _ _ d) others.keeps⟩

mutual
/-- The type at a place of the table; beyond its end, the unknown type. -/
def resolveIndex (table : BindingTable) (i : TypeIndex) (d : Draft) : Reached d TypeId :=
  if inside : i < table.types.length then
    resolveBinding table table.types[i] (List.getElem_mem inside) d
  else ⟨(unknownType d).1, (unknownType d).2, unknownType_keeps d⟩
termination_by (2 * pending table d + 1, 0, 0)

def resolveOption (table : BindingTable) (i : Option TypeIndex) (d : Draft) :
    Reached d (Option TypeId) :=
  match i with
  | none => ⟨none, d, .refl d⟩
  | some i =>
    let target := resolveIndex table i d
    ⟨some target.value, target.draft, target.keeps⟩
termination_by (2 * pending table d + 1, 1, 0)

def resolveAll (table : BindingTable) (is : List TypeIndex) (d : Draft) : Reached d (List TypeId) :=
  match is with
  | [] => ⟨[], d, .refl d⟩
  | i :: is =>
    let first := resolveIndex table i d
    have _noMore := pending_le table first.keeps
    let others := resolveAll table is first.draft
    ⟨first.value :: others.value, others.draft, first.keeps.trans others.keeps⟩
termination_by (2 * pending table d + 1, is.length, 0)
decreasing_by
  · exact Prod.Lex.right _ (Prod.Lex.left _ _ (Nat.succ_pos _))
  · exact lex_of_le _noMore (Prod.Lex.left _ _ (Nat.lt_succ_self _))

/-- Resolves each type and makes it a supertype of `subclass`. -/
def linkAll (table : BindingTable) (subclass : TypeId) (is : List TypeIndex) (d : Draft) :
    Reached d Unit :=
  match is with
  | [] => ⟨(), d, .refl d⟩
  | i :: is =>
    let target := resolveIndex table i d
    let linked := target.draft.edit fun r => (r.insertInheritance subclass target.value).2
    have keeps : KeepsTypes d linked := target.keeps
    have _noMore := pending_le table keeps
    let others := linkAll table subclass is linked
    ⟨(), others.draft, keeps.trans others.keeps⟩
termination_by (2 * pending table d + 1, is.length, 0)
decreasing_by
  · exact Prod.Lex.right _ (Prod.Lex.left _ _ (Nat.succ_pos _))
  · exact lex_of_le _noMore (Prod.Lex.left _ _ (Nat.lt_succ_self _))

/-- Where a bound type is contained: in the class that encloses it, or in its package. -/
def resolveContainer (table : BindingTable) (b : TypeBinding) (d : Draft) : Reached d Container :=
  match enclosing? table b with
  | some e =>
    have := e.shorter
    let outer := resolveBinding table e.outer e.listed d
    ⟨.type outer.value, outer.draft, outer.keeps⟩
  | none =>
    let space := ensureNamespace (b.package.getD unknownName) d
    ⟨.ns space.1, space.2, .refl d⟩
termination_by (2 * pending table d, b.qualifiedName.length, 0)

/-- The type of a binding. A new one is complete when this returns. -/
def resolveBinding (table : BindingTable) (b : TypeBinding) (listed : b ∈ table.types) (d : Draft) :
    Reached d TypeId :=
  if known : (d.registry.types.get? (typeKey table b)).isSome then
    ⟨(d.registry.types.get? (typeKey table b)).get known, d, .refl d⟩
  else
    let place := resolveContainer table b d
    let made := internType (typeKey table b) b.name place.value (kindOf b) place.draft
    have keeps : KeepsTypes d made.2 := place.keeps.trans (internType_keeps _ _ _ _ place.draft)
    have fewer : pending table made.2 < pending table d :=
      pending_lt keeps listed (by simpa using known) (internType_registers _ _ _ _ place.draft)
    match made.1 with
    -- resolving the container may have reached this type already
    | .existing id => ⟨id, made.2, keeps⟩
    | .created id =>
      let start := made.2.edit (·.updateType id fun t => { t with modifiers := .declared b.modifiers })
      have atStart : pending table start < pending table d := fewer
      let linked := linkAll table id (b.superclass.toList ++ b.interfaces) start
      have whenLinked := Nat.lt_of_le_of_lt (pending_le table linked.keeps) atStart
      have keeps : KeepsTypes d linked.draft := keeps.trans linked.keeps
      match kindOf b with
      | .parameterized .. =>
        let erasure := resolveOption table b.erasure linked.draft
        have _whenErased := Nat.lt_of_le_of_lt (pending_le table erasure.keeps) whenLinked
        let arguments := resolveAll table b.typeArguments erasure.draft
        let kind : TypeKind := .parameterized erasure.value arguments.value
        ⟨id, arguments.draft.edit (·.updateType id fun t => { t with kind }),
          keeps.trans (erasure.keeps.trans arguments.keeps)⟩
      | .generic isInterface _ =>
        let parameters := ensureTypeParameters id (typeKey table b) b.typeParameters linked.draft
        let kind : TypeKind := .generic isInterface parameters.value
        ⟨id, parameters.draft.edit (·.updateType id fun t => { t with kind }),
          keeps.trans parameters.keeps⟩
      | _ => ⟨id, linked.draft, keeps⟩
termination_by (2 * pending table d, b.qualifiedName.length, 1)
decreasing_by
  · exact Prod.Lex.right _ (Prod.Lex.right _ Nat.one_pos)
  · exact Prod.Lex.left _ _ (double_succ_lt atStart)
  · exact Prod.Lex.left _ _ (double_succ_lt whenLinked)
  · exact Prod.Lex.left _ _ (double_succ_lt _whenErased)
end

end Draft

end Famix
