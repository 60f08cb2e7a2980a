import Famix.Json.Record

/-!
One of several. A plain choice is the name of one of its options. A tagged union is an object or array that says
in a tag which variant it is; the tag may stand anywhere in an object, so the other fields are read first as
plain values and judged once the object has ended.
-/
namespace Famix.Json

/-- The option with this name. -/
def named (options : List (String × α)) (name : String) : Except Error α :=
  match options.lookup name with
  | some a => .ok a
  | none => .error (.unknownVariant name (options.map (·.1)))

namespace Reader

/-- The null after the name of an option given as an object. -/
def scanUnit : Scan Unit := fun s =>
  onFirst s fun c t ht =>
    if c = 'n' then do
      let p ← scanIdent "ull".toList t
      .ok ⟨(), p.rest, p.lt_of_le ht⟩
    else .error (mismatch .unit (c :: t))

/-- The end of an option given as an object. -/
def closeOption : Scan Unit := fun s =>
  match hs : skipBlank s with
  | [] => .error .endInObject
  | c :: t => if c = '}' then .ok ⟨(), t, lt_of_skipBlank hs⟩ else .error .expectedValue

/-- One of some named options: its name, or an object with the name as its only field and null as the value. -/
def choice (options : List (String × α)) : Reader α where
  scan levels s := onFirst s fun c t ht =>
    if c = '{' then
      nested levels fun _ => do
        let name ← textFor .variantName t
        let a ← named options name.value
        let unit ← afterColon scanUnit name.rest
        let close ← closeOption unit.rest
        .ok ⟨a, close.rest, by
          have := name.shorter; have := unit.shorter; have := close.shorter; omega⟩
    else if c = '"' then do
      let name ← scanText t
      let a ← named options name.value
      .ok ((name.under ht).map fun _ => a)
    else .error .expectedValue
  check
    | .text name => named options name
    | .object [(name, v)] => do
      let a ← named options name
      match v with
      | .null => .ok a
      | .object [] => .ok a
      | v => .error (.invalidType v.found .unit)
    | .object _ => .error (.invalidValue .map .singleKeyMap)
    | v => .error (.invalidType v.found .textOrMap)

end Reader

/-- A union of variants told apart by a tag. -/
structure TaggedUnion (α : Type) where
  /-- the name in messages -/
  name : String
  /-- the field that holds the tag -/
  tag : String
  /-- the tags and what is read under them, from the value without the tag -/
  variants : List (String × Reader α)

namespace TaggedUnion

/-- The variant that a tag in a text names. -/
def scanTag (u : TaggedUnion α) : Scan (Reader α) := fun s => do
  let name ← Reader.textFor .variantName s
  let variant ← named u.variants name.value
  .ok (name.map fun _ => variant)

/-- The variant that a tag read before names. It may be given by its place. -/
def checkTag (u : TaggedUnion α) : Value → Except Error (Reader α)
  | .text name => named u.variants name
  | .number (.integer (.ofNat n)) =>
    match u.variants[n]? with
    | some (_, variant) => .ok variant
    | none => .error (.invalidValue (.number (.integer n)) (.variantIndex u.variants.length))
  | v => .error (.invalidType v.found .variantName)

/-- What was read of an object: the variant, and the other fields, last first. -/
structure Parts (α : Type) where
  variant : Option (Reader α) := none
  fields : List (String × Value) := []

/-- Reads one field of an object. -/
def scanField (u : TaggedUnion α) (levels : Nat) (parts : Parts α) (name : String) : Scan (Parts α) := fun s =>
  if name = u.tag then
    match parts.variant with
    | some _ => .error (.duplicateField u.tag)
    | none => (afterColon u.scanTag s).map (Taken.map fun variant => { parts with variant := some variant })
  else
    (afterColon (scanValue levels) s).map (Taken.map fun v =>
      { parts with fields := (name, v) :: parts.fields })

/-- Judges one field of an object that was read before. -/
def checkField (u : TaggedUnion α) (parts : Parts α) (field : String × Value) : Except Error (Parts α) :=
  if field.1 = u.tag then
    match parts.variant with
    | some _ => .error (.duplicateField u.tag)
    | none => (u.checkTag field.2).map fun variant => { parts with variant := some variant }
  else .ok { parts with fields := field :: parts.fields }

/-- Judges the other fields by the variant. -/
def finish (u : TaggedUnion α) (parts : Parts α) : Except Error α :=
  match parts.variant with
  | none => .error (.missingField u.tag)
  | some variant => variant.check (.object parts.fields.reverse)

/-- A tagged union. As an array it starts with the tag. -/
def reader (u : TaggedUnion α) : Reader α where
  scan levels s := onFirst s fun c t ht =>
    if c = '[' then
      nested levels fun n => do
        match ← nextItem true t with
        | .closed _ _ => .error (.missingField u.tag)
        | .item t' le =>
          let variant ← u.scanTag t'
          let items ← scanItems (scanValue n) variant.rest [] false variant.rest (Nat.le_refl _)
          let a ← variant.value.check (.array items.value)
          .ok ⟨a, items.rest, by
            have := items.shorter; have := variant.shorter; omega⟩
    else if c = '{' then
      nested levels fun n => do
        let parts ← scanFields (u.scanField n) s {} true t (le_of_shorter ht)
        let a ← u.finish parts.value
        .ok (parts.map fun _ => a)
    else .error (mismatch (.tagged u.name) (c :: t))
  check
    | .array [] => .error (.missingField u.tag)
    | .array (tag :: items) => do
      let variant ← u.checkTag tag
      variant.check (.array items)
    | .object entries => do
      let parts ← entries.foldlM u.checkField {}
      u.finish parts
    | v => .error (.invalidType v.found (.tagged u.name))

end TaggedUnion

/-- A reference: an object with a tag for the kind and an index. As an array the tag comes first. -/
structure Reference (α : Type) where
  /-- the name in messages -/
  name : String
  tag : String
  content : String
  variants : List (String × (Nat → α))

namespace Reference

/-- The parts of a reference in the order met. An index before the tag is read as a value and judged with it. -/
inductive Parts (α : Type) where
  | nothing
  | tagged (make : Nat → α)
  | indexed (v : Value)
  | complete (a : α)

def scanField (r : Reference α) (levels : Nat) (parts : Parts α) (name : String) : Scan (Parts α) := fun s =>
  if name = r.tag then
    match parts with
    | .nothing => (afterColon ((Reader.choice r.variants).scan levels) s).map (Taken.map .tagged)
    | .indexed v => do
      let make ← afterColon ((Reader.choice r.variants).scan levels) s
      let n ← Reader.index.check v
      .ok (make.map fun make => .complete (make n))
    | _ => .error (.duplicateField r.tag)
  else if name = r.content then
    match parts with
    | .nothing => (afterColon (scanValue levels) s).map (Taken.map .indexed)
    | .tagged make => (afterColon (Reader.index.scan levels) s).map (Taken.map fun n => .complete (make n))
    | _ => .error (.duplicateField r.content)
  else (afterColon skipValue s).map (Taken.map fun _ => parts)

def finish (r : Reference α) : Parts α → Except Error α
  | .nothing | .indexed _ => .error (.missingField r.tag)
  | .tagged _ => .error (.missingField r.content)
  | .complete a => .ok a

/-- The tag and the index given as an array. -/
def scanArray (r : Reference α) (levels : Nat) : Scan α := fun s => do
  match ← nextItem true s with
  | .closed _ _ => .error (.invalidLength 0 (.tagAndContent r.name))
  | .item t _ =>
    let make ← (Reader.choice r.variants).scan levels t
    match ← nextItem false make.rest with
    | .closed _ _ => .error (.invalidLength 1 (.tagAndContent r.name))
    | .item u _ =>
      let n ← Reader.index.scan levels u
      let close ← closeList n.rest
      .ok ⟨make.value n.value, close.rest, by
        have := make.shorter; have := n.shorter; have := close.shorter; omega⟩

def scan (r : Reference α) (levels : Nat) : Scan α := fun s =>
  onFirst s fun c t ht =>
    if c = '[' then
      nested levels fun n => (r.scanArray n t).map (·.widen (le_of_shorter ht))
    else if c = '{' then
      nested levels fun n => do
        let parts ← scanFields (r.scanField n) s .nothing true t (le_of_shorter ht)
        let a ← r.finish parts.value
        .ok (parts.map fun _ => a)
    else .error (mismatch (.tagAndContent r.name) (c :: t))

def parse (r : Reference α) (text : String) : Except Error α := parseAll (r.scan nestingLimit) text

end Reference

end Famix.Json
