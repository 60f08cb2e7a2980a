/-!
Modifiers of a declaration, and sets of them. A set lists its members in one fixed order, so that equal sets are
equal lists.
-/
namespace Famix

inductive Modifier where
  | publicAccess
  | protectedAccess
  | privateAccess
  | packageAccess
  | final
  | abstract
  | native
  | synchronized
  | transient
  | volatile
  | static
  deriving DecidableEq, Repr

namespace Modifier

def all : List Modifier :=
  [.publicAccess, .protectedAccess, .privateAccess, .packageAccess, .final, .abstract, .native, .synchronized,
    .transient, .volatile, .static]

def name : Modifier → String
  | .publicAccess => "public"
  | .protectedAccess => "protected"
  | .privateAccess => "private"
  | .packageAccess => "package"
  | .final => "final"
  | .abstract => "abstract"
  | .native => "native"
  | .synchronized => "synchronized"
  | .transient => "transient"
  | .volatile => "volatile"
  | .static => "static"

/-- Whether the modifier says who may use the declared thing. -/
def isVisibility : Modifier → Bool
  | .publicAccess | .protectedAccess | .privateAccess | .packageAccess => true
  | _ => false

theorem mem_all (m : Modifier) : m ∈ all := by
  cases m <;> decide

end Modifier

/-- A set of modifiers, listed in the order of `Modifier.all`. -/
structure ModifierSet where
  members : List Modifier
  listed : members = Modifier.all.filter (members.contains ·)
  deriving DecidableEq, Repr

namespace ModifierSet

theorem filter_listed (p : Modifier → Bool) :
    Modifier.all.filter p = Modifier.all.filter ((Modifier.all.filter p).contains ·) := by
  apply List.filter_congr
  intro m _
  simp [Modifier.mem_all]

/-- The set of the modifiers in a list. -/
def ofList (modifiers : List Modifier) : ModifierSet :=
  ⟨Modifier.all.filter (modifiers.contains ·), filter_listed _⟩

def empty : ModifierSet := ofList []

instance : EmptyCollection ModifierSet := ⟨empty⟩
instance : Membership Modifier ModifierSet := ⟨fun s m => m ∈ s.members⟩

def isEmpty (s : ModifierSet) : Bool := s.members.isEmpty

def insertAll (s : ModifierSet) (modifiers : List Modifier) : ModifierSet :=
  ofList (s.members ++ modifiers)

@[simp] theorem mem_ofList {modifiers : List Modifier} {m : Modifier} :
    m ∈ ofList modifiers ↔ m ∈ modifiers := by
  change m ∈ Modifier.all.filter (modifiers.contains ·) ↔ m ∈ modifiers
  simp [Modifier.mem_all]

/-- The modifiers of a declaration: one without a visibility is visible in its package. -/
def declared (modifiers : List Modifier) : ModifierSet :=
  if modifiers.any Modifier.isVisibility then ofList modifiers
  else ofList (.packageAccess :: modifiers)

end ModifierSet

end Famix
