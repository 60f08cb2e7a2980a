import Famix.Json.Reader

/-!
Records. The fields of a record have a declared order; an object may give them in any order, with other fields
between, and an array gives them in that order and may stop early. Every field is given at most once.
-/
namespace Famix.Json

/-- A field of a record. -/
structure Field (α : Type) where
  name : String
  reader : Reader α
  /-- what an object without the field stands for -/
  absent : Option α := none
  /-- what an array that ends before the field stands for -/
  short : Option α := none

namespace Field

def required (name : String) (r : Reader α) : Field α := ⟨name, r, none, none⟩

def withDefault (name : String) (r : Reader α) (value : α) : Field α := ⟨name, r, some value, some value⟩

/-- A field that may be null or missing. -/
def optional (name : String) (r : Reader α) : Field (Option α) := withDefault name r.optional none

/-- A field that may be null, or missing from an object. -/
def nullable (name : String) (r : Reader α) : Field (Option α) := ⟨name, r.optional, some none, none⟩

/-- A list that is empty when missing. -/
def list (name : String) (r : Reader α) : Field (List α) := withDefault name r.list []

/-- A flag that is down when missing. -/
def flag (name : String) : Field Bool := withDefault name .boolean false

end Field

/-- Fields in their declared order. -/
inductive Fields : List Type → Type 1 where
  | nil : Fields []
  | cons (field : Field α) (rest : Fields αs) : Fields (α :: αs)

/-- One value for each field. -/
def Tuple : List Type → Type
  | [] => Unit
  | α :: αs => α × Tuple αs

/-- One place for each field, filled or not. -/
def Slots : List Type → Type
  | [] => Unit
  | α :: αs => Option α × Slots αs

namespace Fields

def size : Fields αs → Nat
  | .nil => 0
  | .cons _ rest => rest.size + 1

def emptySlots : Fields αs → Slots αs
  | .nil => ()
  | .cons _ rest => (none, rest.emptySlots)

/-- Fills the slot of the field called `name` with what `read` makes of its reader; none when there is no such
field. A slot is filled once. What is read may come with something else, which `mapped` leaves alone. -/
def fill {f : Type → Type} (mapped : {α β : Type} → (α → β) → f α → f β)
    (read : {α : Type} → Reader α → Except Error (f α)) (name : String) :
    Fields αs → Slots αs → Option (Except Error (f (Slots αs)))
  | .nil, _ => none
  | @Fields.cons α βs field rest, slots =>
    let (slot, others) : Option α × Slots βs := slots
    if field.name = name then
      match slot with
      | some _ => some (.error (.duplicateField name))
      | none => some ((read field.reader).map (mapped fun a => (some a, others)))
    else (rest.fill mapped read name others).map fun filled =>
      filled.map (mapped fun others => (slot, others))

/-- The values of all fields, in declared order; the first one missing is the error. -/
def finish : Fields αs → Slots αs → Except Error (Tuple αs)
  | .nil, _ => .ok ()
  | @Fields.cons α βs field rest, slots => do
    let (slot, others) : Option α × Slots βs := slots
    match slot <|> field.absent with
    | none => .error (.missingField field.name)
    | some a => .ok (a, ← rest.finish others)

/-- The values of the fields after the end of an array of `length` items. -/
def shorten (title : String) (total length : Nat) : Fields αs → Except Error (Tuple αs)
  | .nil => .ok ()
  | .cons field rest =>
    match field.short with
    | none => .error (.invalidLength length (.elements title total))
    | some a => do .ok (a, ← rest.shorten title total (length + 1))

/-- Reads the items of an array into the fields, after `done` others. -/
def scanArray (title : String) (total levels : Nat) :
    Fields αs → (done : Nat) → (s : List Char) → Except Error (Taken s (Tuple αs))
  | .nil, _, s => (closeList s).map (Taken.map fun _ => ())
  | .cons field rest, done, s => do
    match ← nextItem (done = 0) s with
    | .closed t shorter => .ok ⟨← (Fields.cons field rest).shorten title total done, t, shorter⟩
    | .item t le =>
      let a ← field.reader.scan levels t
      let others ← rest.scanArray title total levels (done + 1) a.rest
      .ok ⟨(a.value, others.value), others.rest,
        Nat.lt_of_lt_of_le (Nat.lt_trans others.shorter a.shorter) le⟩

/-- Judges the items of an array that was read before; also returns those left over. -/
def checkArray (title : String) (total : Nat) :
    Fields αs → (done : Nat) → List Value → Except Error (Tuple αs × List Value)
  | .nil, _, items => .ok ((), items)
  | fields@(.cons _ _), done, [] => do .ok (← fields.shorten title total done, [])
  | .cons field rest, done, item :: items => do
    let a ← field.reader.check item
    let (others, left) ← rest.checkArray title total (done + 1) items
    .ok ((a, others), left)

/-- Reads one field of an object; a field that is not known is passed over. -/
def scanField (fields : Fields αs) (levels : Nat) (slots : Slots αs) (name : String) :
    Scan (Slots αs) := fun s =>
  match fields.fill Taken.map (fun r => afterColon (r.scan levels) s) name slots with
  | some filled => filled
  | none => (afterColon skipValue s).map (Taken.map fun _ => slots)

/-- Judges one field of an object that was read before. -/
def checkField (fields : Fields αs) (slots : Slots αs) (field : String × Value) :
    Except Error (Slots αs) :=
  match fields.fill (f := fun α => α) (fun g => g) (fun r => r.check field.2) field.1 slots with
  | some filled => filled
  | none => .ok slots

end Fields

namespace Reader

/-- A record. The title names it in messages. -/
def record (title : String) (fields : Fields αs) (build : Tuple αs → α) : Reader α where
  scan levels s := onFirst s fun c t ht =>
    if c = '[' then
      nested levels fun n => do
        let tuple ← fields.scanArray title fields.size n 0 t
        .ok ((tuple.map build).widen (le_of_shorter ht))
    else if c = '{' then
      nested levels fun n => do
        let slots ← scanFields (fields.scanField n) s fields.emptySlots true t (le_of_shorter ht)
        let tuple ← fields.finish slots.value
        .ok (slots.map fun _ => build tuple)
    else .error (mismatch (.record title) (c :: t))
  check
    | .array items => do
      match ← fields.checkArray title fields.size 0 items with
      | (tuple, []) => .ok (build tuple)
      | (_, _ :: _) => .error (.invalidLength items.length (.inSequence fields.size))
    | .object entries => do
      let slots ← entries.foldlM fields.checkField fields.emptySlots
      let tuple ← fields.finish slots
      .ok (build tuple)
    | v => .error (.invalidType v.found (.record title))

end Reader

end Famix.Json
