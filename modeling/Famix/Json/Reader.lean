import Famix.Json.Skip

/-!
Readers. A document is read from left to right and the first problem met is the answer. A reader can work on the
text itself, or on a value that had to be read before it could be judged. In a text only so many arrays and
objects may stand inside each other.
-/
namespace Famix.Json

/-- How a piece of a document is read into `α`. -/
structure Reader (α : Type) where
  /-- Reads from a text in which `levels` more arrays and objects may be opened. -/
  scan : (levels : Nat) → Scan α
  /-- Judges a value read before. -/
  check : Value → Except Error α

/-- How many arrays and objects may stand inside each other. -/
def nestingLimit : Nat := 127

/-- Reads a whole text: nothing but blanks may follow. -/
def parseAll (scan : Scan α) (text : String) : Except Error α := do
  let taken ← scan text.toList
  match skipBlank taken.rest with
  | [] => .ok taken.value
  | _ :: _ => .error .trailingCharacters

namespace Reader

def parse (r : Reader α) (text : String) : Except Error α := parseAll (r.scan nestingLimit) text

def map (f : α → β) (r : Reader α) : Reader β where
  scan levels s := (r.scan levels s).map (Taken.map f)
  check v := (r.check v).map f

/-- Reads nothing. -/
def refuse (e : Error) : Reader α where
  scan _ _ := .error e
  check _ := .error e

end Reader

/-- Reads null, a boolean, a number or a string; none when the text starts otherwise. -/
def scanScalar (s : List Char) : Option (Except Error (Taken s Value)) :=
  match s with
  | [] => none
  | c :: t =>
    let ident (letters : String) (v : Value) : Except Error (Taken (c :: t) Value) := do
      let p ← scanIdent letters.toList t
      .ok ⟨v, p.rest, Nat.lt_succ_of_le p.le⟩
    if c = 'n' then some (ident "ull" .null)
    else if c = 't' then some (ident "rue" (.boolean true))
    else if c = 'f' then some (ident "alse" (.boolean false))
    else if c = '-' then some do
      let p ← scanNumber true t
      .ok ⟨.number p.value, p.rest, Nat.lt_succ_of_lt p.shorter⟩
    else if c.isDigit then some do
      let p ← scanNumber false (c :: t)
      .ok (p.map .number)
    else if c = '"' then some do
      let p ← scanText t
      .ok ⟨.text p.value, p.rest, Nat.lt_succ_of_le p.le_tail⟩
    else none

/-- Why a text that starts with another kind of value is refused. A scalar is read first, and its own mistakes
come before that of its kind. -/
def mismatch (wanted : Wanted) (s : List Char) : Error :=
  match scanScalar s with
  | some (.ok v) => .invalidType v.value.found wanted
  | some (.error e) => e
  | none =>
    match s with
    | '[' :: _ => .invalidType .sequence wanted
    | '{' :: _ => .invalidType .map wanted
    | _ => .expectedValue

/-- Skips blanks and hands on the first character and what follows it. -/
def onFirst (s : List Char)
    (next : (c : Char) → (t : List Char) → t.length < s.length → Except Error (Taken s α)) :
    Except Error (Taken s α) :=
  match hs : skipBlank s with
  | [] => .error .endInValue
  | c :: t => next c t (lt_of_skipBlank hs)

/-- Opens one more array or object. -/
def nested (levels : Nat) (inside : Nat → Except Error α) : Except Error α :=
  match levels with
  | 0 => .error .tooDeep
  | n + 1 => inside n

/-- What stands at some place between the brackets of a list. -/
inductive NextItem (s : List Char) where
  | closed (rest : List Char) (shorter : rest.length < s.length)
  | item (rest : List Char) (le : rest.length ≤ s.length)

/-- Goes to the next item of a list, over the comma unless it is the first. -/
def nextItem (first : Bool) (s : List Char) : Except Error (NextItem s) :=
  match hs : skipBlank s with
  | [] => .error .endInList
  | c :: t =>
    have ht := lt_of_skipBlank hs
    if c = ']' then .ok (.closed t ht)
    else if first then .ok (.item (c :: t) ht)
    else if c = ',' then
      match hu : skipBlank t with
      | [] => .error .endInValue
      | d :: u =>
        have hu := lt_of_skipBlank hu
        if d = ']' then .error .trailingComma
        else .ok (.item (d :: u) (by simp only [List.length_cons]; omega))
    else .error .expectedListEnd

/-- The end of a list that has no more items to offer. -/
def closeList (s : List Char) : Except Error (Taken s Unit) :=
  match hs : skipBlank s with
  | [] => .error .endInList
  | c :: t =>
    if c = ']' then .ok ⟨(), t, lt_of_skipBlank hs⟩
    else if c = ',' ∧ (skipBlank t).head? = some ']' then .error .trailingComma
    else .error .trailingCharacters

/-- The items of a list up to its end; `taken` are those before, last first. -/
def scanItems (item : Scan α) (whole : List Char) (taken : List α) (first : Bool) (s : List Char)
    (h : s.length ≤ whole.length) : Except Error (Taken whole (List α)) :=
  match nextItem first s with
  | .error e => .error e
  | .ok (.closed rest shorter) => .ok ⟨taken.reverse, rest, Nat.lt_of_lt_of_le shorter h⟩
  | .ok (.item t ht) =>
    match item t with
    | .error e => .error e
    | .ok x =>
      have hx := x.shorter
      scanItems item whole (x.value :: taken) false x.rest (by omega)
termination_by s.length

/-- What stands at some place between the brackets of an object. -/
inductive NextKey (s : List Char) where
  | closed (rest : List Char) (shorter : rest.length < s.length)
  | key (name : String) (rest : List Char) (shorter : rest.length < s.length)

/-- Reads the name of the next field, over the comma unless it is the first. -/
def nextKey (first : Bool) (s : List Char) : Except Error (NextKey s) :=
  match hs : skipBlank s with
  | [] => .error .endInObject
  | c :: t =>
    have ht := lt_of_skipBlank hs
    if c = '}' then .ok (.closed t ht)
    else if first then
      if c = '"' then do
        let name ← scanText t
        .ok (.key name.value name.rest (name.lt_of_tail ht))
      else .error .keyNotText
    else if c = ',' then
      match hu : skipBlank t with
      | [] => .error .endInValue
      | d :: u =>
        have hu := lt_of_skipBlank hu
        if d = '"' then do
          let name ← scanText u
          .ok (.key name.value name.rest (by have := name.le_tail; omega))
        else if d = '}' then .error .trailingComma
        else .error .keyNotText
    else .error .expectedObjectEnd

/-- The colon between a name and its value. -/
def scanColon (s : List Char) : Except Error (Taken s Unit) :=
  match hs : skipBlank s with
  | [] => .error .endInObject
  | c :: t => if c = ':' then .ok ⟨(), t, lt_of_skipBlank hs⟩ else .error .expectedColon

/-- A colon and then a value. -/
def afterColon (value : Scan α) : Scan α := fun s => do
  let colon ← scanColon s
  let x ← value colon.rest
  .ok (x.widen (Nat.le_of_lt colon.shorter))

/-- The fields of an object up to its end. `field` is given what was gathered before and the name of a field,
and reads the colon and the value. -/
def scanFields (field : σ → String → Scan σ) (whole : List Char) (state : σ) (first : Bool)
    (s : List Char) (h : s.length ≤ whole.length) : Except Error (Taken whole σ) :=
  match nextKey first s with
  | .error e => .error e
  | .ok (.closed rest shorter) => .ok ⟨state, rest, Nat.lt_of_lt_of_le shorter h⟩
  | .ok (.key name t ht) =>
    match field state name t with
    | .error e => .error e
    | .ok x =>
      have hx := x.shorter
      scanFields field whole x.value false x.rest (by omega)
termination_by s.length

/-- Any value; `inner` reads those inside it, and is none when no more may be opened. -/
def scanValueWith (inner : Option (Scan Value)) : Scan Value := fun s =>
  onFirst s fun c t ht =>
    match scanScalar (c :: t) with
    | some (.ok v) => .ok (v.widen ht)
    | some (.error e) => .error e
    | none =>
      if c = '[' then
        match inner with
        | none => .error .tooDeep
        | some inner => do
          let items ← scanItems inner s [] true t (le_of_shorter ht)
          .ok (items.map .array)
      else if c = '{' then
        match inner with
        | none => .error .tooDeep
        | some inner => do
          let field (done : List (String × Value)) (name : String) : Scan (List (String × Value)) := fun u =>
            (afterColon inner u).map (Taken.map fun v => (name, v) :: done)
          let fields ← scanFields field s [] true t (le_of_shorter ht)
          .ok (fields.map fun done => .object done.reverse)
      else .error .expectedValue

/-- Any value in which at most `levels` arrays and objects are opened inside each other. -/
def scanValue : (levels : Nat) → Scan Value
  | 0 => scanValueWith none
  | n + 1 => scanValueWith (some (scanValue n))

namespace Reader

/-- Every value as it is. -/
def value : Reader Value where
  scan := scanValue
  check := .ok

/-- A string that `wanted` describes. -/
def textFor (wanted : Wanted) : Scan String := fun s =>
  onFirst s fun c t ht =>
    if c = '"' then do
      let p ← scanText t
      .ok (p.under ht)
    else .error (mismatch wanted (c :: t))

def text : Reader String where
  scan _ := textFor .text
  check
    | .text s => .ok s
    | v => .error (.invalidType v.found .text)

def boolean : Reader Bool where
  scan _ s := onFirst s fun c t ht =>
    let ident (letters : String) (b : Bool) : Except Error (Taken s Bool) := do
      let p ← scanIdent letters.toList t
      .ok ⟨b, p.rest, p.lt_of_le ht⟩
    if c = 't' then ident "rue" true
    else if c = 'f' then ident "alse" false
    else .error (mismatch .boolean (c :: t))
  check
    | .boolean b => .ok b
    | v => .error (.invalidType v.found .boolean)

/-- A number from 0 up to but not including `bound`. -/
def naturalOf (bound : Nat) (wanted : Wanted) : Number → Except Error Nat
  | .integer n =>
    if 0 ≤ n ∧ n < bound then .ok n.toNat
    else .error (.invalidValue (.number (.integer n)) wanted)
  | n => .error (.invalidType (.number n) wanted)

def natural (bound : Nat) (wanted : Wanted) : Reader Nat where
  scan _ s := onFirst s fun c t ht =>
    if c = '-' then do
      let p ← scanNumber true t
      let n ← naturalOf bound wanted p.value
      .ok ⟨n, p.rest, Nat.lt_trans p.shorter ht⟩
    else if c.isDigit then do
      let p ← scanNumber false (c :: t)
      let n ← naturalOf bound wanted p.value
      .ok ⟨n, p.rest, p.lt_of_tail ht⟩
    else .error (mismatch wanted (c :: t))
  check
    | .number n => naturalOf bound wanted n
    | v => .error (.invalidType v.found wanted)

/-- The place of something in a list, an integer of 32 bits. -/
def index : Reader Nat := natural 0x100000000 .word32

/-- A count of things, an integer of 64 bits. -/
def count : Reader Nat := natural 0x10000000000000000 .word64

/-- Null, or what `r` reads. -/
def optional (r : Reader α) : Reader (Option α) where
  scan levels s :=
    match hs : skipBlank s with
    | 'n' :: t => do
      let p ← scanIdent "ull".toList t
      .ok ⟨none, p.rest, p.lt_of_le (lt_of_skipBlank hs)⟩
    | _ => (r.scan levels s).map (Taken.map some)
  check
    | .null => .ok none
    | v => (r.check v).map some

def list (r : Reader α) : Reader (List α) where
  scan levels s := onFirst s fun c t ht =>
    if c = '[' then
      nested levels fun n => scanItems (r.scan n) s [] true t (le_of_shorter ht)
    else .error (mismatch .sequence (c :: t))
  check
    | .array items => items.mapM r.check
    | v => .error (.invalidType v.found .sequence)

end Reader

end Famix.Json
