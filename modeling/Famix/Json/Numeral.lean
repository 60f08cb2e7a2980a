import Famix.Json.Taken

/-!
Numbers as written: digits, an optional fraction, an optional exponent. An integer of 64 bits is kept exactly;
every other number becomes a binary64 value. Digits that no longer fit a significand of 64 bits are dropped.
-/
namespace Famix.Json

/-- The parts of a written number. -/
structure Numeral where
  negative : Bool
  whole : List Char
  fraction : Option (List Char)
  /-- whether the exponent is negative, and its digits -/
  exponent : Option (Bool × List Char)
  deriving DecidableEq, Repr

def digitValue (c : Char) : Nat := c.toNat - '0'.toNat

namespace Numeral

/-- Appends digits to `acc` while the result has 64 bits; also says how many were appended. -/
def absorb (acc : Nat) : List Char → Nat × Nat
  | [] => (acc, 0)
  | c :: digits =>
    let next := acc * 10 + digitValue c
    if next < 0x10000000000000000 then
      let (result, count) := absorb next digits
      (result, count + 1)
    else (acc, 0)

def natural (digits : List Char) : Nat :=
  digits.foldl (fun n c => n * 10 + digitValue c) 0

/-- The largest exponent that is looked at. -/
def maxExponent : Nat := 0x7fffffff

def real (negative : Bool) (m : Option Magnitude) : Except Error Number :=
  match m with
  | some m => .ok (.real ⟨negative, m⟩)
  | none => .error .numberOutOfRange

/-- What the numeral stands for. Minus zero is no integer. -/
def number (n : Numeral) : Except Error Number :=
  let (head, used) := absorb 0 n.whole
  let dropped := n.whole.length - used
  match n.fraction, n.exponent, dropped with
  | none, none, 0 =>
    if !n.negative then .ok (.integer head)
    else if 0 < head ∧ head ≤ 0x8000000000000000 then .ok (.integer (-head))
    else real true (Magnitude.nearest head 1)
  | fraction, exponent, _ =>
    let (significand, after) := absorb head (fraction.getD [])
    let shift : Int := dropped - after
    match exponent with
    | none => real n.negative (Magnitude.ofDecimal significand shift)
    | some (negative, digits) =>
      let e := natural digits
      if e ≤ maxExponent then
        real n.negative (Magnitude.ofDecimal significand (if negative then shift - e else shift + e))
      else if significand = 0 ∨ negative then real n.negative (Magnitude.nearest 0 1)
      else .error .numberOutOfRange

/-- One digit or more. `ended` is the error for a text that ends here. -/
def scanDigits (ended : Error) (s : List Char) : Except Error (Taken s (List Char)) :=
  match s with
  | [] => .error ended
  | c :: t =>
    if c.isDigit then
      .ok ⟨c :: t.takeWhile Char.isDigit, t.dropWhile Char.isDigit,
        Nat.lt_succ_of_le (length_dropWhile_le _ t)⟩
    else .error .invalidNumber

def scanFraction (ended : Error) (s : List Char) : Except Error (Passed s (Option (List Char))) :=
  match s with
  | '.' :: t => do
    let digits ← scanDigits ended t
    .ok ⟨some digits.value, digits.rest, Nat.le_succ_of_le (Nat.le_of_lt digits.shorter)⟩
  | s => .ok ⟨none, s, le_length s⟩

/-- The sign and digits after the mark of an exponent. -/
def scanPower (ended : Error) (s : List Char) : Except Error (Taken s (Bool × List Char)) :=
  match s with
  | '+' :: t => do
    let digits ← scanDigits ended t
    .ok ⟨(false, digits.value), digits.rest, Nat.lt_succ_of_lt digits.shorter⟩
  | '-' :: t => do
    let digits ← scanDigits ended t
    .ok ⟨(true, digits.value), digits.rest, Nat.lt_succ_of_lt digits.shorter⟩
  | s => do
    let digits ← scanDigits ended s
    .ok ⟨(false, digits.value), digits.rest, digits.shorter⟩

def scanExponent (ended : Error) (s : List Char) :
    Except Error (Passed s (Option (Bool × List Char))) :=
  match s with
  | c :: t =>
    if c = 'e' ∨ c = 'E' then do
      let power ← scanPower ended t
      .ok ⟨some power.value, power.rest, Nat.le_succ_of_le (Nat.le_of_lt power.shorter)⟩
    else .ok ⟨none, c :: t, Nat.le_refl _⟩
  | [] => .ok ⟨none, [], Nat.le_refl _⟩

/-- A number after its sign. `ended` is the error for a text that ends within it. -/
def scan (ended : Error) (negative : Bool) (s : List Char) : Except Error (Taken s Numeral) := do
  let whole ← scanDigits ended s
  if whole.value.head? = some '0' ∧ whole.value.length ≠ 1 then
    .error .invalidNumber
  else
    let fraction ← scanFraction ended whole.rest
    let exponent ← scanExponent ended fraction.rest
    .ok ⟨⟨negative, whole.value, fraction.value, exponent.value⟩, exponent.rest,
      Nat.lt_of_le_of_lt (Nat.le_trans exponent.le fraction.le) whole.shorter⟩

end Numeral

/-- A number after its sign, as a value. -/
def scanNumber (negative : Bool) (s : List Char) : Except Error (Taken s Number) := do
  let numeral ← Numeral.scan .endInValue negative s
  let number ← numeral.value.number
  .ok ⟨number, numeral.rest, numeral.shorter⟩

end Famix.Json
