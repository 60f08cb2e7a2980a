import Famix.Json.Taken

/-!
Strings. A string that is kept must be a text: its escapes have to name characters. Of a string that is skipped
only the form of the escapes is looked at.
-/
namespace Famix.Json

def hexValue (c : Char) : Option Nat :=
  if '0' ≤ c ∧ c ≤ '9' then some (c.toNat - '0'.toNat)
  else if 'a' ≤ c ∧ c ≤ 'f' then some (c.toNat - 'a'.toNat + 10)
  else if 'A' ≤ c ∧ c ≤ 'F' then some (c.toNat - 'A'.toNat + 10)
  else none

def hexNumber (digits : List Char) : Option Nat :=
  digits.foldlM (fun n c => (hexValue c).map (n * 16 + ·)) 0

/-- Four hexadecimal digits. The text has ended when fewer than four bytes are left. -/
def scanHex (s : List Char) : Except Error (Taken s Nat) :=
  match s with
  | a :: b :: c :: d :: t =>
    match hexNumber [a, b, c, d] with
    | some n => .ok ⟨n, t, by simp only [List.length_cons]; omega⟩
    | none => .error .invalidEscape
  | short => .error (if (String.ofList short).utf8ByteSize < 4 then .endInString else .invalidEscape)

/-- The character that a letter after a backslash stands for. -/
def shortEscape (c : Char) : Option Char :=
  match c with
  | '"' => some '"'
  | '\\' => some '\\'
  | '/' => some '/'
  | 'b' => some '\x08'
  | 'f' => some '\x0c'
  | 'n' => some '\n'
  | 'r' => some '\r'
  | 't' => some '\t'
  | _ => none

def isHighSurrogate (n : Nat) : Bool := 0xD800 ≤ n && n ≤ 0xDBFF
def isLowSurrogate (n : Nat) : Bool := 0xDC00 ≤ n && n ≤ 0xDFFF

/-- The character beyond the first plane that a pair stands for. -/
def pairedChar (high low : Nat) : Char :=
  Char.ofNat ((high - 0xD800) * 0x400 + (low - 0xDC00) + 0x10000)

/-- The second half of a pair, with its mark. -/
def scanLow (high : Nat) (s : List Char) : Except Error (Taken s Char) :=
  match s with
  | [] => .error .endInString
  | ['\\'] => .error .endInString
  | '\\' :: 'u' :: t => do
    let low ← scanHex t
    if isLowSurrogate low.value then
      .ok ⟨pairedChar high low.value, low.rest, Nat.lt_succ_of_lt (Nat.lt_succ_of_lt low.shorter)⟩
    else .error .loneSurrogate
  | _ => .error .halfPair

/-- A character given by its number, after the mark. -/
def scanUnicode (s : List Char) : Except Error (Taken s Char) := do
  let n ← scanHex s
  if isLowSurrogate n.value then .error .loneSurrogate
  else if isHighSurrogate n.value then
    let c ← scanLow n.value n.rest
    .ok ⟨c.value, c.rest, Nat.lt_trans c.shorter n.shorter⟩
  else .ok ⟨Char.ofNat n.value, n.rest, n.shorter⟩

/-- What follows a backslash in a string that is kept. -/
def scanEscape (s : List Char) : Except Error (Taken s Char) :=
  match s with
  | [] => .error .endInString
  | c :: t =>
    if c = 'u' then do
      let u ← scanUnicode t
      .ok ⟨u.value, u.rest, Nat.lt_succ_of_lt u.shorter⟩
    else
      match shortEscape c with
      | some d => .ok ⟨d, t, Nat.lt_succ_self _⟩
      | none => .error .invalidEscape

/-- What follows a backslash in a string that is skipped. -/
def skipEscape (s : List Char) : Except Error (Taken s Unit) :=
  match s with
  | [] => .error .endInString
  | c :: t =>
    if c = 'u' then do
      let n ← scanHex t
      .ok ⟨(), n.rest, Nat.lt_succ_of_lt n.shorter⟩
    else if (shortEscape c).isSome then .ok ⟨(), t, Nat.lt_succ_self _⟩
    else .error .invalidEscape

/-- The rest of a string up to its closing quote; `taken` are the characters so far, last first. -/
def scanCharacters (whole taken s : List Char) (h : s.length < whole.length) :
    Except Error (Taken whole String) :=
  match s with
  | [] => .error .endInString
  | c :: t =>
    if c = '"' then .ok ⟨String.ofList taken.reverse, t, Nat.lt_of_succ_lt h⟩
    else if c = '\\' then
      match scanEscape t with
      | .error e => .error e
      | .ok escaped =>
        scanCharacters whole (escaped.value :: taken) escaped.rest
          (Nat.lt_trans escaped.shorter (Nat.lt_of_succ_lt h))
    else if c.toNat < 0x20 then .error .controlCharacter
    else scanCharacters whole (c :: taken) t (Nat.lt_of_succ_lt h)
termination_by s.length
decreasing_by
  · exact Nat.lt_succ_of_lt escaped.shorter
  · exact Nat.lt_succ_self _

def skipCharacters (whole s : List Char) (h : s.length < whole.length) :
    Except Error (Taken whole Unit) :=
  match s with
  | [] => .error .endInString
  | c :: t =>
    if c = '"' then .ok ⟨(), t, Nat.lt_of_succ_lt h⟩
    else if c = '\\' then
      match skipEscape t with
      | .error e => .error e
      | .ok escaped =>
        skipCharacters whole escaped.rest (Nat.lt_trans escaped.shorter (Nat.lt_of_succ_lt h))
    else if c.toNat < 0x20 then .error .controlCharacter
    else skipCharacters whole t (Nat.lt_of_succ_lt h)
termination_by s.length
decreasing_by
  · exact Nat.lt_succ_of_lt escaped.shorter
  · exact Nat.lt_succ_self _

/-- A string after its opening quote. -/
def scanText (s : List Char) : Except Error (Taken ('"' :: s) String) :=
  scanCharacters ('"' :: s) [] s (Nat.lt_succ_self _)

def skipText (s : List Char) : Except Error (Taken ('"' :: s) Unit) :=
  skipCharacters ('"' :: s) s (Nat.lt_succ_self _)

end Famix.Json
