import Famix.Json.Numeral
import Famix.Json.Characters

/-!
Passing over a value that nobody asked for. It has to be well formed but may be nested to any depth, so the open
brackets are kept in a list.
-/
namespace Famix.Json

inductive Bracket where
  | list
  | object
  deriving DecidableEq, Repr

mutual
/-- Passes over one value and then over what closes the brackets `around` it. -/
def skipWithin (whole : List Char) (around : List Bracket) (s : List Char)
    (h : s.length ≤ whole.length) : Except Error (Taken whole Unit) :=
  match hs : skipBlank s with
  | [] => .error .endInValue
  | c :: t =>
    have ht := lt_of_skipBlank hs
    if c = 'n' then do
      let p ← scanIdent "ull".toList t
      have hp := p.le
      skipAfter whole around p.rest (by omega)
    else if c = 't' then do
      let p ← scanIdent "rue".toList t
      have hp := p.le
      skipAfter whole around p.rest (by omega)
    else if c = 'f' then do
      let p ← scanIdent "alse".toList t
      have hp := p.le
      skipAfter whole around p.rest (by omega)
    else if c = '-' then do
      let p ← Numeral.scan .invalidNumber true t
      have hp := p.shorter
      skipAfter whole around p.rest (by omega)
    else if c.isDigit then do
      let p ← Numeral.scan .invalidNumber false (c :: t)
      have hp := p.le_tail
      skipAfter whole around p.rest (by omega)
    else if c = '"' then do
      let p ← skipText t
      have hp := p.le_tail
      skipAfter whole around p.rest (by omega)
    else if c = '[' then
      match hu : skipBlank t with
      | [] => .error .endInList
      | d :: u =>
        have hu := lt_of_skipBlank hu
        if d = ']' then skipAfter whole around u (by omega)
        else skipWithin whole (.list :: around) t (by omega)
    else if c = '{' then
      match hu : skipBlank t with
      | [] => .error .endInObject
      | d :: u =>
        have hu := lt_of_skipBlank hu
        if d = '}' then skipAfter whole around u (by omega)
        else skipField whole around t (by omega)
    else .error .expectedValue
termination_by s.length

/-- Goes on after a value inside the brackets `around`. -/
def skipAfter (whole : List Char) (around : List Bracket) (s : List Char)
    (h : s.length < whole.length) : Except Error (Taken whole Unit) :=
  match around with
  | [] => .ok ⟨(), s, h⟩
  | .list :: outer =>
    match hs : skipBlank s with
    | [] => .error .endInList
    | c :: t =>
      have ht := lt_of_skipBlank hs
      if c = ',' then skipWithin whole (.list :: outer) t (by omega)
      else if c = ']' then skipAfter whole outer t (by omega)
      else .error .expectedListEnd
  | .object :: outer =>
    match hs : skipBlank s with
    | [] => .error .endInObject
    | c :: t =>
      have ht := lt_of_skipBlank hs
      if c = ',' then skipField whole outer t (by omega)
      else if c = '}' then skipAfter whole outer t (by omega)
      else .error .expectedObjectEnd
termination_by s.length

/-- Passes over a field of an object that stands inside the brackets `around`. -/
def skipField (whole : List Char) (around : List Bracket) (s : List Char)
    (h : s.length ≤ whole.length) : Except Error (Taken whole Unit) :=
  match hs : skipBlank s with
  | [] => .error .endInObject
  | c :: t =>
    have ht := lt_of_skipBlank hs
    if c = '"' then do
      let name ← skipText t
      have hn := name.le_tail
      match hu : skipBlank name.rest with
      | [] => .error .endInObject
      | d :: u =>
        have hu := lt_of_skipBlank hu
        if d = ':' then skipWithin whole (.object :: around) u (by omega)
        else .error .expectedColon
    else .error .keyNotText
termination_by s.length
end

/-- Passes over one value of any depth. -/
def skipValue (s : List Char) : Except Error (Taken s Unit) :=
  skipWithin s [] s (le_length s)

end Famix.Json
