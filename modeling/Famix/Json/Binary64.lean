/-!
Numbers with a fraction or an exponent, as binary64 values held exactly: how a decimal is read into one and
how one is written. Everything is computed on natural numbers.
-/
namespace Famix.Json

/-- The value `mantissa · 2 ^ exponent`, finite and not negative. -/
structure Magnitude where
  mantissa : Nat
  exponent : Int
  deriving DecidableEq, Repr

/-- A finite binary64 number. Zero has a sign too. -/
structure Binary64 where
  negative : Bool
  magnitude : Magnitude
  deriving DecidableEq, Repr

namespace Magnitude

/-- The quotient rounded to the nearest natural number, a tie to the even one. -/
def roundDiv (num den : Nat) : Nat :=
  let q := num / den
  let twice := 2 * (num % den)
  if twice < den || (twice = den && q % 2 = 0) then q else q + 1

/-- Two powers of two that stand for `2 ^ e` as a fraction. -/
def twoPow (e : Int) : Nat × Nat :=
  (Nat.pow 2 e.toNat, Nat.pow 2 (-e).toNat)

/-- One more than the largest mantissa. -/
def mantissaBound : Nat := 0x20000000000000

/-- The value nearest to `num / den`; none when that is too large. -/
def nearest (num den : Nat) : Option Magnitude :=
  if num = 0 then some ⟨0, -1074⟩
  else
    let low : Int := max ((num.log2 : Int) - den.log2 - 53) (-1074)
    let wide := num * (twoPow low).2 / (den * (twoPow low).1)
    let e := if wide < mantissaBound then low else low + 1
    let m := roundDiv (num * (twoPow e).2) (den * (twoPow e).1)
    let rounded : Magnitude := if m = mantissaBound then ⟨mantissaBound / 2, e + 1⟩ else ⟨m, e⟩
    if rounded.exponent ≤ 971 then some rounded else none

def mul (a b : Magnitude) : Option Magnitude :=
  let s := twoPow (a.exponent + b.exponent)
  nearest (a.mantissa * b.mantissa * s.1) s.2

def div (a b : Magnitude) : Option Magnitude :=
  let s := twoPow (a.exponent - b.exponent)
  nearest (a.mantissa * s.1) (b.mantissa * s.2)

/-- The largest exponent for which a power of ten is at hand. -/
def maxPower : Nat := 308

/-- `value · 10 ^ exponent`, one rounding for each factor of at most `10 ^ 308`. -/
def scaleTen (value : Magnitude) (exponent : Int) : Option Magnitude :=
  if exponent.natAbs ≤ maxPower then do
    let power ← nearest (Nat.pow 10 exponent.natAbs) 1
    if 0 ≤ exponent then value.mul power else value.div power
  else if value.mantissa = 0 then some value
  else if 0 ≤ exponent then none
  else do
    let power ← nearest (Nat.pow 10 maxPower) 1
    let value ← value.div power
    scaleTen value (exponent + maxPower)
termination_by exponent.natAbs
decreasing_by
  simp only [maxPower] at *
  omega

/-- `significand · 10 ^ exponent`: the significand is rounded first, then scaled. None when too large. -/
def ofDecimal (significand : Nat) (exponent : Int) : Option Magnitude := do
  scaleTen (← nearest significand 1) exponent

/-- Order of `a · 10 ^ g` and `k · 2 ^ h`. -/
def compareTen (a : Nat) (g : Int) (k : Nat) (h : Int) : Ordering :=
  compare (a * Nat.pow 10 g.toNat * Nat.pow 2 (-h).toNat) (k * Nat.pow 2 h.toNat * Nat.pow 10 (-g).toNat)

/-- Whether a decimal `c · 10 ^ g` is read as `x`, and not as one of its neighbours: it lies between the two
middles, and on one of them only when the mantissa of `x` is even. -/
def reads (x : Magnitude) (c : Nat) (g : Int) : Bool :=
  let h := x.exponent - 2
  let closer := x.mantissa = mantissaBound / 2 && x.exponent > -1074
  let lower := if closer then 4 * x.mantissa - 1 else 4 * x.mantissa - 2
  let upper := 4 * x.mantissa + 2
  let even := x.mantissa % 2 = 0
  (match compareTen c g lower h with | .gt => true | .eq => even | .lt => false) &&
  (match compareTen c g upper h with | .lt => true | .eq => even | .gt => false)

/-- The count of digits before the point, for a value below one the negated count of zeros after it. -/
def digitsBeforePoint (x : Magnitude) : Int :=
  let guess := ((x.mantissa.log2 : Int) + x.exponent) * 30103 / 100000
  match [guess - 1, guess, guess + 1].find? fun p => compareTen 1 p x.mantissa x.exponent = .gt with
  | some p => p
  | none => guess + 2

/-- A decimal with `n` digits that reads as `x`, the nearest one if there are two, of two at the same distance
the even one. -/
def decimalOf (x : Magnitude) (n : Nat) : Option (Nat × Int) :=
  let g := x.digitsBeforePoint - n
  let low := x.mantissa * Nat.pow 2 x.exponent.toNat * Nat.pow 10 (-g).toNat /
    (Nat.pow 2 (-x.exponent).toNat * Nat.pow 10 g.toNat)
  match x.reads low g, x.reads (low + 1) g with
  | false, false => none
  | true, false => some (low, g)
  | false, true => some (low + 1, g)
  | true, true =>
    match compareTen (2 * low + 1) g (2 * x.mantissa) x.exponent with
    | .gt => some (low, g)
    | .lt => some (low + 1, g)
    | .eq => some (if low % 2 = 0 then (low, g) else (low + 1, g))

/-- Digits and power of ten of the shortest decimal that reads as `x`, without zeros at the end. -/
def shortest (x : Magnitude) : List Char × Int :=
  match (List.range 17).findSome? fun n => x.decimalOf (n + 1) with
  | none => (['0'], 0)
  | some (c, g) =>
    let digits := Nat.toDigits 10 c
    let zeros := (digits.reverse.takeWhile (· = '0')).length
    (digits.take (digits.length - zeros), g + zeros)

/-- Positional when the point falls within the first 16 places or at most four zeros after it; otherwise one
digit before the point and an exponent. -/
def text (x : Magnitude) : List Char :=
  if x.mantissa = 0 then "0.0".toList
  else
    let (digits, k) := x.shortest
    let point := digits.length + k
    if 0 ≤ k ∧ point ≤ 16 then digits ++ List.replicate k.toNat '0' ++ ".0".toList
    else if 0 < point ∧ point ≤ 16 then
      digits.take point.toNat ++ '.' :: digits.drop point.toNat
    else if -5 < point ∧ point ≤ 0 then
      "0.".toList ++ List.replicate (-point).toNat '0' ++ digits
    else
      let fraction := if digits.length ≤ 1 then [] else '.' :: digits.drop 1
      digits.take 1 ++ fraction ++ 'e' :: (toString (point - 1)).toList

end Magnitude

namespace Binary64

def text (x : Binary64) : String :=
  String.ofList ((if x.negative then ['-'] else []) ++ x.magnitude.text)

end Binary64

end Famix.Json
