import Famix.Model.Id

/-!
The containers that are open at some point of a traversal.
-/
namespace Famix

/-- Open containers, the innermost first. -/
structure Scope where
  frames : List Container := []
  deriving DecidableEq, Repr

namespace Scope

def push (s : Scope) (c : Container) : Scope := ⟨c :: s.frames⟩

/-- The innermost container and the scope without it; an empty scope stays as it is. -/
def pop (s : Scope) : Option Container × Scope :=
  match s.frames with
  | [] => (none, s)
  | c :: rest => (some c, ⟨rest⟩)

def current (s : Scope) : Option Container := s.frames.head?

/-- The innermost container, if it is a method. -/
def currentMethod (s : Scope) : Option MethodId :=
  match s.current with
  | some (.method id) => some id
  | _ => none

/-- The innermost container, if it is a type. -/
def currentType (s : Scope) : Option TypeId :=
  match s.current with
  | some (.type id) => some id
  | _ => none

/-- The innermost namespace at any depth. -/
def enclosingNamespace (s : Scope) : Option NamespaceId :=
  s.frames.findSome? fun
    | .ns id => some id
    | _ => none

def depth (s : Scope) : Nat := s.frames.length

def isEmpty (s : Scope) : Bool := s.frames.isEmpty

/-- Open containers, the outermost first. -/
def path (s : Scope) : List Container := s.frames.reverse

@[simp] theorem pop_push (s : Scope) (c : Container) : (s.push c).pop = (some c, s) := rfl

end Scope

end Famix
