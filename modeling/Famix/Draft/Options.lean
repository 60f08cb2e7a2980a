import Famix.Draft.Basic
import Famix.Json.Record
import Famix.Json.TaggedUnion

/-!
Options of a construction, as they are written.
-/
namespace Famix.AttributeKeying

open Json (Reader)

def name : AttributeKeying → String
  | .keyed => "keyed"
  | .legacy => "legacy"

def all : List AttributeKeying := [.keyed, .legacy]

def ofName? (s : String) : Option AttributeKeying := all.find? (·.name = s)

def reader : Reader AttributeKeying := .choice (all.map fun k => (k.name, k))

/-- Reads a record of options. -/
def optionsReader : Reader AttributeKeying :=
  .record "struct BuilderOptions" (.cons (.withDefault "attribute_keying" reader .keyed) .nil)
    fun (keying, _) => keying

end Famix.AttributeKeying
