import Famix.Mse.Stanza

/-!
Texts of nested groups and how they are read back. Characters are read one by one into words, quoted texts and
parentheses, and these into trees. A text inside quotes may hold any character, since a quote that ends it is not
followed by another one.
-/
namespace Famix.Mse

inductive Lexeme where
  | opening
  | closing
  | word (chars : List Char)
  | text (chars : List Char)
  deriving DecidableEq, Repr

/-- What a character that ends a word or a text stands for. -/
def delimiter? (c : Char) : Option (List Lexeme) :=
  if c = '(' then some [.opening]
  else if c = ')' then some [.closing]
  else if c = ' ' ∨ c = '\n' then some []
  else none

/-- Where a reader is, with what it has read of a word or a text. -/
inductive Position where
  | between
  | inWord (read : List Char)
  | inText (read : List Char)
  /-- after a quote in a text, which ends the text unless another one follows -/
  | afterQuote (read : List Char)

namespace Position

/-- What a delimiter ends. -/
def ended : Position → Option (List Lexeme)
  | .between => some []
  | .inWord read => some [.word read]
  | .inText _ => none
  | .afterQuote read => some [.text read]

def step (p : Position) (c : Char) : Option (Position × List Lexeme) :=
  match p with
  | .inText read => if c = '\'' then some (.afterQuote read, []) else some (.inText (read ++ [c]), [])
  | p =>
    match delimiter? c with
    | some found => p.ended.map fun last => (.between, last ++ found)
    | none =>
      match p with
      | .inWord read => some (.inWord (read ++ [c]), [])
      | .afterQuote read => if c = '\'' then some (.inText (read ++ [c]), []) else none
      | _ => if c = '\'' then some (.inText [], []) else some (.inWord [c], [])

end Position

def lex (p : Position) : List Char → Option (List Lexeme)
  | [] => p.ended
  | c :: rest => do
    let (next, found) ← p.step c
    let others ← lex next rest
    return found ++ others

/-- Reading `chars` leads from one position to another and gives some lexemes, whatever follows. -/
def Moves (p : Position) (chars : List Char) (q : Position) (found : List Lexeme) : Prop :=
  ∀ rest, lex p (chars ++ rest) = (lex q rest).map (found ++ ·)

namespace Moves

theorem refl (p : Position) : Moves p [] p [] := by
  intro rest
  simp

theorem single {p q : Position} {c : Char} {found : List Lexeme} (step : p.step c = some (q, found)) :
    Moves p [c] q found := by
  intro rest
  simp only [List.singleton_append, lex, step, Option.bind_eq_bind, Option.bind_some]
  cases lex q rest <;> rfl

theorem trans {p q s : Position} {chars more : List Char} {found others : List Lexeme}
    (first : Moves p chars q found) (second : Moves q more s others) :
    Moves p (chars ++ more) s (found ++ others) := by
  intro rest
  rw [List.append_assoc, first, second, Option.map_map]
  congr 1
  funext lexemes
  simp

end Moves

def Plain (c : Char) : Prop := delimiter? c = none ∧ c ≠ '\''

instance (c : Char) : Decidable (Plain c) := inferInstanceAs (Decidable (_ ∧ _))

theorem moves_word {chars : List Char} (plain : ∀ c ∈ chars, Plain c) (read : List Char) :
    Moves (.inWord read) chars (.inWord (read ++ chars)) [] := by
  induction chars generalizing read with
  | nil => simpa using Moves.refl (.inWord read)
  | cons c rest ih =>
    obtain ⟨own, others⟩ := List.forall_mem_cons.mp plain
    have first : Moves (.inWord read) [c] (.inWord (read ++ [c])) [] := .single (by simp [Position.step, own.1])
    simpa using first.trans (ih others (read ++ [c]))

theorem moves_quoteChars (chars read : List Char) :
    Moves (.inText read) (quoteChars chars) (.inText (read ++ chars)) [] := by
  induction chars generalizing read with
  | nil => simpa [quoteChars] using Moves.refl (.inText read)
  | cons c rest ih =>
    by_cases quote : c = '\''
    · subst quote
      -- the first of two quotes may be the end, and the second says that it was not
      have first : Moves (.inText read) ['\''] (.afterQuote read) [] := .single (by simp [Position.step])
      have second : Moves (.afterQuote read) ['\''] (.inText (read ++ ['\''])) [] :=
        .single (by simp [Position.step, delimiter?])
      simpa [quoteChars] using (first.trans second).trans (ih (read ++ ['\'']))
    · have first : Moves (.inText read) [c] (.inText (read ++ [c])) [] := .single (by simp [Position.step, quote])
      simpa [quoteChars, quote] using first.trans (ih (read ++ [c]))

/-- Whatever delimiter follows, `chars` is read as these lexemes. -/
def Reads (chars : List Char) (found : List Lexeme) : Prop :=
  ∀ c mark, delimiter? c = some mark → Moves .between (chars ++ [c]) .between (found ++ mark)

namespace Reads

theorem nil : Reads [] [] := fun c mark delimits => .single (by simp [Position.step, Position.ended, delimits])

theorem word {chars : List Char} (nonempty : chars ≠ []) (plain : ∀ c ∈ chars, Plain c) :
    Reads chars [.word chars] := by
  obtain ⟨first, rest, rfl⟩ := List.exists_cons_of_ne_nil nonempty
  obtain ⟨own, others⟩ := List.forall_mem_cons.mp plain
  have begun : Moves .between [first] (.inWord [first]) [] := .single (by simp [Position.step, own.1, own.2])
  intro c mark delimits
  have ended : Moves (.inWord (first :: rest)) [c] .between (.word (first :: rest) :: mark) :=
    .single (by simp [Position.step, Position.ended, delimits])
  simpa using (begun.trans (moves_word others [first])).trans ended

theorem quote (s : String) : Reads (quote s) [.text s.toList] := by
  have begun : Moves .between ['\''] (.inText []) [] := .single (by simp [Position.step, delimiter?])
  have closed : Moves (.inText s.toList) ['\''] (.afterQuote s.toList) [] := .single (by simp [Position.step])
  intro c mark delimits
  have ended : Moves (.afterQuote s.toList) [c] .between (.text s.toList :: mark) :=
    .single (by simp [Position.step, Position.ended, delimits])
  simpa [Mse.quote] using ((begun.trans (moves_quoteChars s.toList [])).trans closed).trans ended

/-- Texts on both sides of a delimiter are read apart. -/
theorem around {chars more : List Char} {found others mark : List Lexeme} {c : Char} (first : Reads chars found)
    (delimits : delimiter? c = some mark) (second : Reads more others) :
    Reads (chars ++ c :: more) (found ++ mark ++ others) := by
  intro c' mark' delimits'
  simpa using (first c mark delimits).trans (second c' mark' delimits')

theorem lex {chars : List Char} {found : List Lexeme} (reads : Reads chars found) :
    lex .between (chars ++ ['\n']) = some found := by
  have all := reads '\n' [] rfl []
  simpa [Mse.lex, Position.ended] using all

end Reads

inductive Tree where
  | word (chars : List Char)
  | text (chars : List Char)
  | group (items : List Tree)

mutual
def Tree.lexemes : Tree → List Lexeme
  | .word chars => [.word chars]
  | .text chars => [.text chars]
  | .group items => .opening :: (lexemesAll items ++ [.closing])

def lexemesAll : List Tree → List Lexeme
  | [] => []
  | t :: rest => t.lexemes ++ lexemesAll rest
end

/-- The trees that lexemes make up, after the trees of the group that is open and of the groups around it. -/
def build (current : List Tree) (outer : List (List Tree)) : List Lexeme → Option (List Tree)
  | [] => if outer = [] then some current else none
  | .word chars :: rest => build (current ++ [.word chars]) outer rest
  | .text chars :: rest => build (current ++ [.text chars]) outer rest
  | .opening :: rest => build [] (current :: outer) rest
  | .closing :: rest =>
    match outer with
    | [] => none
    | around :: outer => build (around ++ [.group current]) outer rest

mutual
theorem build_lexemes (t : Tree) (current : List Tree) (outer : List (List Tree)) (rest : List Lexeme) :
    build current outer (t.lexemes ++ rest) = build (current ++ [t]) outer rest := by
  cases t with
  | word chars => simp [Tree.lexemes, build]
  | text chars => simp [Tree.lexemes, build]
  | group items =>
    rw [Tree.lexemes, List.cons_append, build, List.append_assoc, build_lexemesAll]
    simp [build]

theorem build_lexemesAll (ts : List Tree) (current : List Tree) (outer : List (List Tree)) (rest : List Lexeme) :
    build current outer (lexemesAll ts ++ rest) = build (current ++ ts) outer rest := by
  cases ts with
  | nil => simp [lexemesAll]
  | cons t ts =>
    rw [lexemesAll, List.append_assoc, build_lexemes, build_lexemesAll]
    simp
end

def parse (chars : List Char) : Option (List Tree) := (lex .between chars).bind (build [] [])

theorem parse_of_reads {chars : List Char} {t : Tree} (reads : Reads chars t.lexemes) :
    parse (chars ++ ['\n']) = some [t] := by
  have built := build_lexemes t [] [] []
  rw [List.append_nil] at built
  rw [parse, reads.lex, Option.bind_some, built]
  rfl

/-! Texts that are read as trees. -/

section Items

variable {α : Type} {write : α → List Char} {tree : α → Tree}

/-- Items after a text, each after a blank. -/
theorem Reads.items (items : List α) (each : ∀ a ∈ items, Reads (write a) (tree a).lexemes) {chars : List Char}
    {found : List Lexeme} (first : Reads chars found) :
    Reads (chars ++ items.flatMap fun a => ' ' :: write a) (found ++ lexemesAll (items.map tree)) := by
  induction items generalizing chars found with
  | nil => simpa [lexemesAll] using first
  | cons a rest ih =>
    obtain ⟨own, others⟩ := List.forall_mem_cons.mp each
    have second : Reads (chars ++ ' ' :: write a) (found ++ [] ++ (tree a).lexemes) := first.around rfl own
    simpa [lexemesAll] using ih others second

/-- Items on lines of their own. -/
theorem Reads.lines (items : List α) (each : ∀ a ∈ items, Reads (write a) (tree a).lexemes) :
    Reads (items.flatMap fun a => write a ++ ['\n']) (lexemesAll (items.map tree)) := by
  induction items with
  | nil => exact .nil
  | cons a rest ih =>
    obtain ⟨own, others⟩ := List.forall_mem_cons.mp each
    have both := own.around (c := '\n') rfl (ih others)
    simpa [lexemesAll] using both

end Items

theorem Reads.group {chars : List Char} {items : List Tree} (inner : Reads chars (lexemesAll items)) :
    Reads ('(' :: (chars ++ [')'])) (Tree.group items).lexemes := by
  have opened : Reads ('(' :: chars) (.opening :: lexemesAll items) := by
    simpa using Reads.nil.around (c := '(') rfl inner
  have closed := opened.around (c := ')') rfl .nil
  simpa [Tree.lexemes] using closed

end Famix.Mse
