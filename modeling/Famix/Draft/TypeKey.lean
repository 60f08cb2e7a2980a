import Famix.Java.Binding
import Famix.Model.Entity

/-!
Keys of bound types. A type that is enclosed in its declaring class has the key of that class and what its own
name adds to it; any other is known by its qualified name, under the unknown namespace if it has no package.
-/
namespace Famix

open Java (BindingTable TypeBinding TypeIndex)

/-- What is left of `s` after `front`. -/
def stripFront : (front s : List Char) → Option (List Char)
  | [], s => some s
  | _ :: _, [] => none
  | c :: front, d :: s => if c = d then stripFront front s else none

theorem stripFront_eq_some {front s rest : List Char} :
    stripFront front s = some rest ↔ s = front ++ rest := by
  induction front generalizing s with
  | nil => simp [stripFront]
  | cons c front ih =>
    cases s with
    | nil => simp [stripFront]
    | cons d s =>
      by_cases h : c = d
      · simp [stripFront, h, ih]
      · simp [stripFront, h, Ne.symm h]

/-- What the qualified name of `member` adds to that of `outer`: a dot and more. -/
def memberSuffix (outer member : TypeBinding) : Option String :=
  match stripFront outer.qualifiedName.toList member.qualifiedName.toList with
  | some ('.' :: rest) => some (String.ofList ('.' :: rest))
  | _ => none

theorem length_lt_of_memberSuffix {outer member : TypeBinding} {suffix : String}
    (h : memberSuffix outer member = some suffix) :
    outer.qualifiedName.length < member.qualifiedName.length := by
  unfold memberSuffix at h
  split at h
  · next rest found =>
    have whole := congrArg List.length (stripFront_eq_some.mp found)
    simp only [List.length_append, List.length_cons, String.length_toList] at whole
    omega
  · cases h

/-- The binding of the class in which `b` is declared, when its name encloses that of `b`. -/
structure Enclosing (table : BindingTable) (b : TypeBinding) where
  outer : TypeBinding
  suffix : String
  listed : outer ∈ table.types
  encloses : memberSuffix outer b = some suffix

theorem Enclosing.shorter {table : BindingTable} {b : TypeBinding} (e : Enclosing table b) :
    e.outer.qualifiedName.length < b.qualifiedName.length :=
  length_lt_of_memberSuffix e.encloses

def enclosing? (table : BindingTable) (b : TypeBinding) : Option (Enclosing table b) :=
  match b.declaringClass with
  | none => none
  | some i =>
    if inside : i < table.types.length then
      if encloses : (memberSuffix table.types[i] b).isSome then
        some ⟨table.types[i], (memberSuffix table.types[i] b).get encloses, List.getElem_mem inside,
          (Option.some_get encloses).symm⟩
      else none
    else none

/-- The key of a bound type. -/
def typeKey (table : BindingTable) (b : TypeBinding) : String :=
  match enclosing? table b with
  | some e => typeKey table e.outer ++ e.suffix
  | none =>
    match b.package with
    | some _ => b.qualifiedName
    | none => unknownKey b.qualifiedName
termination_by b.qualifiedName.length
decreasing_by exact e.shorter

/-- The kind of a bound type, before the types it refers to are known. -/
def kindOf (b : TypeBinding) : TypeKind :=
  if b.isPrimitive then .primitive
  else if b.isParameterized then .parameterized none []
  else if b.isGeneric then .generic b.isInterface []
  else if b.isEnum then .enumType
  else .classType b.isInterface

end Famix
