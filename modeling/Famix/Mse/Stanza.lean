/-!
Stanzas of an MSE text. Each describes one element: its class, its number and its properties. A text value stands
in single quotes, and a single quote inside it is written twice.
-/
namespace Famix.Mse

inductive Property where
  | text (name value : String)
  | flag (name : String) (value : Bool)
  /-- references to other elements by their numbers -/
  | references (name : String) (targets : List Nat)
  | texts (name : String) (values : List String)
  deriving DecidableEq, Repr

structure Stanza where
  className : String
  number : Nat
  properties : List Property
  deriving DecidableEq, Repr

/-- The inside of a quoted text. -/
def quoteChars : List Char → List Char
  | [] => []
  | c :: rest => if c = '\'' then '\'' :: '\'' :: quoteChars rest else c :: quoteChars rest

def quote (s : String) : List Char := '\'' :: (quoteChars s.toList ++ ['\''])

def writeNumber (n : Nat) : List Char := Nat.toDigits 10 n

/-- A number after a word, in parentheses. -/
def marked (word : String) (n : Nat) : List Char :=
  '(' :: (word.toList ++ ' ' :: (writeNumber n ++ [')']))

namespace Property

def name : Property → String
  | .text name _ => name
  | .flag name _ => name
  | .references name _ => name
  | .texts name _ => name

/-- What stands after the name, each item after a blank. -/
def items : Property → List (List Char)
  | .text _ value => [quote value]
  | .flag _ value => [(if value then "true" else "false").toList]
  | .references _ targets => targets.map (marked "ref:")
  | .texts _ values => values.map quote

def write (p : Property) : List Char :=
  '(' :: (p.name.toList ++ p.items.flatMap (' ' :: ·) ++ [')'])

end Property

namespace Stanza

def write (s : Stanza) : List Char :=
  "(FAMIX.".toList ++ s.className.toList ++ ' ' :: marked "id:" s.number ++
    s.properties.flatMap (' ' :: ·.write) ++ [')']

end Stanza

/-- The text of a list of stanzas, one to a line. -/
def write (stanzas : List Stanza) : List Char :=
  '(' :: '\n' :: (stanzas.flatMap (·.write ++ ['\n']) ++ [')', '\n'])

end Famix.Mse
