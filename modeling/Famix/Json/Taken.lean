import Famix.Json.Error

/-!
Reading from the front of a text. A step that reads something returns what is left together with the fact that
it is shorter, so that every loop over a text ends.
-/
namespace Famix.Json

/-- A value read from the front of `s`, and what is left of `s`. -/
structure Taken (s : List Char) (α : Type) where
  value : α
  rest : List Char
  shorter : rest.length < s.length

/-- Like `Taken`, for a step that may read nothing. -/
structure Passed (s : List Char) (α : Type) where
  value : α
  rest : List Char
  le : rest.length ≤ s.length

theorem le_length (s : List Char) : s.length ≤ s.length := Nat.le_refl _

theorem le_of_shorter {s t : List Char} (h : t.length < s.length) : t.length ≤ s.length := Nat.le_of_lt h

/-- Reads one thing from the front of a text. -/
abbrev Scan (α : Type) := (s : List Char) → Except Error (Taken s α)

namespace Taken

def map (f : α → β) (t : Taken s α) : Taken s β := ⟨f t.value, t.rest, t.shorter⟩

/-- The same step seen from a longer text. -/
def widen (t : Taken s α) (h : s.length ≤ whole.length) : Taken whole α :=
  ⟨t.value, t.rest, Nat.lt_of_lt_of_le t.shorter h⟩

theorem le_tail (p : Taken (c :: t) α) : p.rest.length ≤ t.length :=
  Nat.le_of_lt_succ p.shorter

theorem lt_of_tail {s : List Char} (p : Taken (c :: t) α) (h : t.length < s.length) : p.rest.length < s.length :=
  Nat.lt_of_le_of_lt p.le_tail h

/-- The same step seen from a text that holds the tail. -/
def under {s : List Char} (p : Taken (c :: t) α) (h : t.length < s.length) : Taken s α :=
  ⟨p.value, p.rest, p.lt_of_tail h⟩

end Taken

namespace Passed

theorem lt_of_le {s : List Char} (p : Passed t α) (h : t.length < s.length) : p.rest.length < s.length :=
  Nat.lt_of_le_of_lt p.le h

end Passed

def isBlank (c : Char) : Bool :=
  c = ' ' || c = '\n' || c = '\t' || c = '\r'

def skipBlank (s : List Char) : List Char := s.dropWhile isBlank

theorem length_dropWhile_le (p : Char → Bool) (s : List Char) : (s.dropWhile p).length ≤ s.length :=
  (List.dropWhile_sublist p).length_le

theorem length_skipBlank_le (s : List Char) : (skipBlank s).length ≤ s.length :=
  length_dropWhile_le isBlank s

theorem lt_of_skipBlank {s t : List Char} {c : Char} (h : skipBlank s = c :: t) :
    t.length < s.length := by
  have := length_skipBlank_le s
  rw [h, List.length_cons] at this
  omega

/-- Reads the given letters, the tail of `true`, `false` or `null`. -/
def scanIdent : List Char → (s : List Char) → Except Error (Passed s Unit)
  | [], s => .ok ⟨(), s, le_length s⟩
  | _ :: _, [] => .error .endInValue
  | letter :: letters, c :: s =>
    if c = letter then do
      let done ← scanIdent letters s
      .ok ⟨(), done.rest, Nat.le_succ_of_le done.le⟩
    else .error .expectedIdent

end Famix.Json
