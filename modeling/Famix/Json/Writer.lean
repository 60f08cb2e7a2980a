import Famix.Json.Value

/-!
JSON text of a value: compact, or with one item to a line and two blanks for each level.
-/
namespace Famix.Json

/-- The low hexadecimal digit of `n`, lower case. -/
def hexDigit (n : Nat) : Char := Nat.digitChar (n % 16)

/-- A character inside a string. Only quotes, backslashes and control characters are marked. -/
def writeChar (c : Char) : List Char :=
  if c = '"' then ['\\', '"']
  else if c = '\\' then ['\\', '\\']
  else if c = '\x08' then ['\\', 'b']
  else if c = '\x0c' then ['\\', 'f']
  else if c = '\n' then ['\\', 'n']
  else if c = '\r' then ['\\', 'r']
  else if c = '\t' then ['\\', 't']
  else if c.toNat < 0x20 then ['\\', 'u', '0', '0', hexDigit (c.toNat / 16), hexDigit c.toNat]
  else [c]

def writeText (s : String) : List Char :=
  '"' :: s.toList.flatMap writeChar ++ ['"']

def writeNatural (n : Nat) : List Char := Nat.toDigits 10 n

namespace Number

def write : Number → List Char
  | .integer (.ofNat n) => writeNatural n
  | .integer (.negSucc n) => '-' :: writeNatural (n + 1)
  | .real x => x.text.toList

end Number

namespace Value

/-- A value that is no array and no object. -/
def writeScalar : Value → List Char
  | .null => "null".toList
  | .boolean true => "true".toList
  | .boolean false => "false".toList
  | .number n => n.write
  | .text s => writeText s
  | .array _ => []
  | .object _ => []

mutual
/-- The shortest text: no blanks. -/
def write : Value → List Char
  | .array [] => ['[', ']']
  | .array (v :: rest) => '[' :: (v.write ++ writeItems rest)
  | .object [] => ['{', '}']
  | .object ((name, v) :: rest) => '{' :: (writeText name ++ ':' :: (v.write ++ writeFields rest))
  | v => v.writeScalar

/-- Further items of an array, and its end. -/
def writeItems : List Value → List Char
  | [] => [']']
  | v :: rest => ',' :: (v.write ++ writeItems rest)

/-- Further fields of an object, and its end. -/
def writeFields : List (String × Value) → List Char
  | [] => ['}']
  | (name, v) :: rest => ',' :: (writeText name ++ ':' :: (v.write ++ writeFields rest))
end

def compact (v : Value) : String := String.ofList v.write

/-- A new line at some level. -/
def newLine (level : Nat) : List Char := '\n' :: List.replicate (2 * level) ' '

mutual
/-- One item to a line, inside `level` others. -/
def writeIndented (level : Nat) : Value → List Char
  | .array [] => ['[', ']']
  | .array (v :: rest) =>
    '[' :: (newLine (level + 1) ++ v.writeIndented (level + 1) ++ indentItems level rest)
  | .object [] => ['{', '}']
  | .object ((name, v) :: rest) =>
    '{' :: (newLine (level + 1) ++ writeText name ++ ':' :: ' ' ::
      (v.writeIndented (level + 1) ++ indentFields level rest))
  | v => v.writeScalar

def indentItems (level : Nat) : List Value → List Char
  | [] => newLine level ++ [']']
  | v :: rest => ',' :: (newLine (level + 1) ++ v.writeIndented (level + 1) ++ indentItems level rest)

def indentFields (level : Nat) : List (String × Value) → List Char
  | [] => newLine level ++ ['}']
  | (name, v) :: rest =>
    ',' :: (newLine (level + 1) ++ writeText name ++ ':' :: ' ' ::
      (v.writeIndented (level + 1) ++ indentFields level rest))
end

def indented (v : Value) : String := String.ofList (v.writeIndented 0)

end Value

end Famix.Json
