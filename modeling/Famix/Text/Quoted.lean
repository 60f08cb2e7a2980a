import Famix.Text.Printable

/-!
Text in double quotes as it appears in a message: a quote and a backslash are marked by a backslash, the
usual control characters have their letters, and what cannot be shown is given by its number.
-/
namespace Famix.Text

/-- Digits of `n` in base 16, lower case, without leading zeros. -/
def hex (n : Nat) : String :=
  String.ofList (Nat.toDigits 16 n)

def quotedChar (c : Char) : String :=
  if c = '"' then "\\\""
  else if c = '\\' then "\\\\"
  else if c = '\n' then "\\n"
  else if c = '\r' then "\\r"
  else if c = '\t' then "\\t"
  else if c = '\x00' then "\\0"
  else if printable c then c.toString
  else "\\u\x7b" ++ hex c.toNat ++ "\x7d"

def quoted (s : String) : String :=
  "\"" ++ String.join (s.toList.map quotedChar) ++ "\""

end Famix.Text
