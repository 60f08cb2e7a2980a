/-!
Posting lists: for each key the items filed under it, in the order in which they were filed.
-/
namespace Famix

structure Postings (κ ι : Type) where
  lists : List (κ × List ι) := []
  deriving Repr

namespace Postings

variable {κ ι : Type} [DecidableEq κ]

/-- The items filed under a key. -/
def of (p : Postings κ ι) (key : κ) : List ι :=
  (p.lists.lookup key).getD []

/-- Appends an item to the list of its key, which is started if there is none. -/
def append (key : κ) (item : ι) : List (κ × List ι) → List (κ × List ι)
  | [] => [(key, [item])]
  | (k, items) :: rest =>
    if k = key then (k, items ++ [item]) :: rest else (k, items) :: append key item rest

def file (p : Postings κ ι) (key : κ) (item : ι) : Postings κ ι :=
  ⟨append key item p.lists⟩

@[simp] theorem of_empty (key : κ) : (⟨[]⟩ : Postings κ ι).of key = [] := rfl

theorem lookup_append (key k : κ) (item : ι) (lists : List (κ × List ι)) :
    ((append key item lists).lookup k).getD [] =
      (lists.lookup k).getD [] ++ if k = key then [item] else [] := by
  induction lists with
  | nil =>
    by_cases h : k = key
    · simp [append, h]
    · have : (k == key) = false := by simp [h]
      simp [append, List.lookup_cons, h, this]
  | cons entry rest ih =>
    obtain ⟨k', items⟩ := entry
    by_cases hk : k' = key
    · subst hk
      by_cases h : k = k'
      · simp [append, h]
      · have : (k == k') = false := by simp [h]
        simp [append, List.lookup_cons, h, this]
    · by_cases h : k = k'
      · subst h
        simp [append, hk]
      · have : (k == k') = false := by simp [h]
        simp [append, List.lookup_cons, hk, this, ih]

/-- Filing an item adds it at the end of its own list and leaves the others as they were. -/
@[simp] theorem of_file (p : Postings κ ι) (key k : κ) (item : ι) :
    (p.file key item).of k = p.of k ++ if k = key then [item] else [] :=
  lookup_append key k item p.lists

end Postings

end Famix
