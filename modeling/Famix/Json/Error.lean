import Famix.Json.Value
import Famix.Text.Quoted

/-!
Why a text is refused: it ended too early, it is not JSON, or it is JSON of another shape than the document
needs. Each cause has one wording.
-/
namespace Famix.Json

/-- The kind of value met where another was wanted. -/
inductive Found where
  | null
  | boolean (b : Bool)
  | number (n : Number)
  | text (s : String)
  | sequence
  | map
  deriving DecidableEq, Repr

/-- What a document wants at some place. -/
inductive Wanted where
  | text
  | boolean
  | sequence
  /-- an unsigned integer of 32 bits -/
  | word32
  /-- an unsigned integer of 64 bits -/
  | word64
  /-- a record, named as in messages -/
  | record (title : String)
  /-- a record given as an array -/
  | elements (title : String) (count : Nat)
  /-- an array that is used up after so many elements -/
  | inSequence (count : Nat)
  /-- a union whose tag is one of the fields -/
  | tagged (name : String)
  /-- a union with one field for the tag and one for the content -/
  | tagAndContent (name : String)
  | variantName
  | variantIndex (count : Nat)
  | unit
  | textOrMap
  | singleKeyMap
  deriving DecidableEq, Repr

inductive Error where
  | endInValue
  | endInString
  | endInList
  | endInObject
  | expectedValue
  | expectedIdent
  | expectedColon
  | expectedListEnd
  | expectedObjectEnd
  | trailingComma
  | trailingCharacters
  | keyNotText
  | invalidNumber
  | numberOutOfRange
  | invalidEscape
  /-- the first half of a surrogate pair without a second escape -/
  | halfPair
  /-- an escape that is no character, as half of a pair in the wrong place -/
  | loneSurrogate
  | controlCharacter
  | tooDeep
  | invalidType (found : Found) (wanted : Wanted)
  | invalidValue (found : Found) (wanted : Wanted)
  | invalidLength (length : Nat) (wanted : Wanted)
  | unknownVariant (name : String) (known : List String)
  | missingField (name : String)
  | duplicateField (name : String)
  deriving DecidableEq, Repr

/-- The three classes of refusal. -/
inductive ErrorClass where
  | malformed
  | ended
  | unsuitable
  deriving DecidableEq, Repr

namespace Number

def found : Number → String
  | .integer n => "integer `" ++ toString n ++ "`"
  | .real x => "floating point `" ++ x.text ++ "`"

end Number

namespace Found

def message : Found → String
  | .null => "null"
  | .boolean b => "boolean `" ++ (if b then "true" else "false") ++ "`"
  | .number n => n.found
  | .text s => "string " ++ Text.quoted s
  | .sequence => "sequence"
  | .map => "map"

end Found

namespace Value

/-- What kind of value this is. -/
def found : Value → Found
  | .null => .null
  | .boolean b => .boolean b
  | .number n => .number n
  | .text s => .text s
  | .array _ => .sequence
  | .object _ => .map

end Value

/-- A count of elements, in words. -/
def elementCount (n : Nat) : String :=
  toString n ++ (if n = 1 then " element" else " elements")

namespace Wanted

def message : Wanted → String
  | .text => "a string"
  | .boolean => "a boolean"
  | .sequence => "a sequence"
  | .word32 => "u32"
  | .word64 => "usize"
  | .record title => title
  | .elements title count => title ++ " with " ++ elementCount count
  | .inSequence count => elementCount count ++ " in sequence"
  | .tagged name => "internally tagged enum " ++ name
  | .tagAndContent name => "adjacently tagged enum " ++ name
  | .variantName => "variant identifier"
  | .variantIndex count => "variant index 0 <= i < " ++ toString count
  | .unit => "unit"
  | .textOrMap => "string or map"
  | .singleKeyMap => "map with a single key"

end Wanted

/-- The names a variant may have, in words. -/
def knownNames : List String → String
  | [] => "there are no variants"
  | [a] => "expected `" ++ a ++ "`"
  | [a, b] => "expected `" ++ a ++ "` or `" ++ b ++ "`"
  | names => "expected one of " ++ ", ".intercalate (names.map fun n => "`" ++ n ++ "`")

namespace Error

def message : Error → String
  | .endInValue => "EOF while parsing a value"
  | .endInString => "EOF while parsing a string"
  | .endInList => "EOF while parsing a list"
  | .endInObject => "EOF while parsing an object"
  | .expectedValue => "expected value"
  | .expectedIdent => "expected ident"
  | .expectedColon => "expected `:`"
  | .expectedListEnd => "expected `,` or `]`"
  | .expectedObjectEnd => "expected `,` or `\x7d`"
  | .trailingComma => "trailing comma"
  | .trailingCharacters => "trailing characters"
  | .keyNotText => "key must be a string"
  | .invalidNumber => "invalid number"
  | .numberOutOfRange => "number out of range"
  | .invalidEscape => "invalid escape"
  | .halfPair => "unexpected end of hex escape"
  | .loneSurrogate => "lone leading surrogate in hex escape"
  | .controlCharacter => "control character (\\u0000-\\u001F) found while parsing a string"
  | .tooDeep => "recursion limit exceeded"
  | .invalidType found wanted => "invalid type: " ++ found.message ++ ", expected " ++ wanted.message
  | .invalidValue found wanted => "invalid value: " ++ found.message ++ ", expected " ++ wanted.message
  | .invalidLength length wanted =>
    "invalid length " ++ toString length ++ ", expected " ++ wanted.message
  | .unknownVariant name known => "unknown variant `" ++ name ++ "`, " ++ knownNames known
  | .missingField name => "missing field `" ++ name ++ "`"
  | .duplicateField name => "duplicate field `" ++ name ++ "`"

def errorClass : Error → ErrorClass
  | .endInValue | .endInString | .endInList | .endInObject => .ended
  | .invalidType .. | .invalidValue .. | .invalidLength .. | .unknownVariant .. | .missingField _
  | .duplicateField _ => .unsuitable
  | _ => .malformed

end Error

end Famix.Json
