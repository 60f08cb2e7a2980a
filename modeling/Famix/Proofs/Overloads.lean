import Famix.Proofs.Convergence
import Mathlib.Data.List.Infix

/-!
Overloads. A signature gives the name of a method and the texts of its parameter types, and both can be read back from
it as long as the name has no parenthesis and no text can be taken for two. So two methods that are declared in one
class without a binding are one method exactly if they agree in their names and in the texts of their parameter types.
-/
namespace Famix

open Java (BindingTable TypeBinding TypeIndex TypeRef MethodDecl ParameterDecl methodSignature)

namespace Java

/-- A text that is told from what stands around it in a list. -/
structure Listable (text : String) : Prop where
  nonempty : text ≠ ""
  whole : ¬ [',', ' '] <:+: text.toList

instance (text : String) : Decidable (Listable text) :=
  decidable_of_iff (text ≠ "" ∧ ¬ [',', ' '] <:+: text.toList) ⟨fun h => ⟨h.1, h.2⟩, fun h => ⟨h.nonempty, h.whole⟩⟩

/-- What may stand after an item of a list. -/
def Follows (rest : List Char) : Prop := rest = [] ∨ ∃ more, rest = ',' :: ' ' :: more

/-- No item reaches into what follows another: the first place where a comma and a blank could end it is where it
ends, as neither character can stand in place of the other. -/
theorem eq_nil_of_follows {xs ws us vs : List Char} (whole : ¬ [',', ' '] <:+: xs ++ ws) (left : Follows us)
    (right : Follows vs) (same : us = ws ++ vs) : ws = [] := by
  rcases ws with _ | ⟨c, _ | ⟨b, ws⟩⟩
  · rfl
  · rcases left with rfl | ⟨more, rfl⟩
    · cases same
    · rcases right with rfl | ⟨others, rfl⟩ <;> simp at same
  · rcases left with rfl | ⟨more, rfl⟩
    · cases same
    · simp only [List.cons_append, List.cons.injEq] at same
      obtain ⟨rfl, rfl, -⟩ := same
      exact absurd ⟨xs, ws, by simp⟩ whole

theorem append_follows_inj {xs ys us vs : List Char} (first : ¬ [',', ' '] <:+: xs) (second : ¬ [',', ' '] <:+: ys)
    (left : Follows us) (right : Follows vs) (same : xs ++ us = ys ++ vs) : xs = ys ∧ us = vs := by
  rcases List.append_eq_append_iff.mp same with ⟨ws, rfl, rest⟩ | ⟨ws, rfl, rest⟩
  · obtain rfl := eq_nil_of_follows second left right rest
    simpa using rest
  · obtain rfl := eq_nil_of_follows first right left rest
    simpa [eq_comm] using rest

/-- The rest of a list, after its first item. -/
def listedAfter : List String → List Char
  | [] => []
  | text :: texts => ',' :: ' ' :: (separated ", " (text :: texts)).toList

theorem follows_listedAfter (texts : List String) : Follows (listedAfter texts) := by
  cases texts with
  | nil => exact .inl rfl
  | cons text texts => exact .inr ⟨_, rfl⟩

theorem toList_separated_cons (text : String) (texts : List String) :
    (separated ", " (text :: texts)).toList = text.toList ++ listedAfter texts := by
  cases texts with
  | nil => simp [separated, listedAfter]
  | cons next texts => simp [separated, listedAfter]

theorem separated_of_listedAfter {xs ys : List String} (same : listedAfter xs = listedAfter ys) :
    separated ", " xs = separated ", " ys := by
  cases xs with
  | nil =>
    cases ys with
    | nil => rfl
    | cons y ys => cases same
  | cons x xs =>
    cases ys with
    | nil => cases same
    | cons y ys =>
      obtain ⟨-, blank⟩ := List.cons.inj same
      obtain ⟨-, rest⟩ := List.cons.inj blank
      exact String.toList_inj.mp rest

theorem separated_cons_ne {text : String} (listable : Listable text) (texts : List String) :
    separated ", " (text :: texts) ≠ separated ", " [] := by
  intro same
  have empty := (toList_separated_cons text texts).symm.trans (congrArg String.toList same)
  exact listable.nonempty (String.toList_inj.mp (List.append_eq_nil_iff.mp empty).1)

theorem separated_inj {xs ys : List String} (first : ∀ x ∈ xs, Listable x) (second : ∀ y ∈ ys, Listable y)
    (same : separated ", " xs = separated ", " ys) : xs = ys := by
  induction xs generalizing ys with
  | nil =>
    cases ys with
    | nil => rfl
    | cons y ys => exact absurd same.symm (separated_cons_ne (second y List.mem_cons_self) ys)
  | cons x xs ih =>
    cases ys with
    | nil => exact absurd same (separated_cons_ne (first x List.mem_cons_self) xs)
    | cons y ys =>
      have texts := congrArg String.toList same
      rw [toList_separated_cons, toList_separated_cons] at texts
      obtain ⟨head, tail⟩ := append_follows_inj (first x List.mem_cons_self).whole
        (second y List.mem_cons_self).whole (follows_listedAfter xs) (follows_listedAfter ys) texts
      rw [String.toList_inj.mp head, ih (fun z mem => first z (List.mem_cons_of_mem x mem))
        (fun z mem => second z (List.mem_cons_of_mem y mem)) (separated_of_listedAfter tail)]

theorem methodSignature_inj {name other : String} {xs ys : List String} (left : '(' ∉ name.toList)
    (right : '(' ∉ other.toList) (first : ∀ x ∈ xs, Listable x) (second : ∀ y ∈ ys, Listable y) :
    methodSignature name xs = methodSignature other ys ↔ name = other ∧ xs = ys := by
  refine ⟨fun same => ?_, fun ⟨names, types⟩ => names ▸ types ▸ rfl⟩
  have shape : ∀ name xs, (methodSignature name xs).toList =
      name.toList ++ '(' :: ((separated ", " xs).toList ++ [')']) := by
    intro name xs
    simp [methodSignature]
  have texts := congrArg String.toList same
  rw [shape, shape] at texts
  -- the name ends at the first parenthesis
  have names : name.toList = other.toList := by
    have cut := congrArg (List.takeWhile (· ≠ '(')) texts
    rw [takeWhile_of_not_mem left, takeWhile_of_not_mem right] at cut
    simpa using cut
  rw [names, List.append_cancel_left_eq, List.cons.injEq] at texts
  have types := String.toList_inj.mp (List.append_cancel_right texts.2)
  exact ⟨String.toList_inj.mp names, separated_inj first second types⟩

end Java

namespace Draft

/-- The text that a type has in a signature: the qualified name of the type in the table that it is bound to, or what is
written if there is none. -/
inductive TypeText (table : BindingTable) (t : TypeRef) : String → Prop where
  | bound {i : TypeIndex} {b : TypeBinding} (index : t.binding = some i) (listed : table.types[i]? = some b) :
      TypeText table t b.qualifiedName
  | written (unbound : ∀ i, t.binding = some i → table.types[i]? = none) : TypeText table t t.written.text

theorem TypeText.eq {ctx : Context} {t : TypeRef} {text : String} (h : TypeText ctx.bindings t text) :
    text = writtenTypeText ctx t := by
  unfold writtenTypeText BindingTable.resolveType BindingTable.resolveIn
  cases h with
  | bound index listed => simp only [index, listed]
  | written unbound =>
    cases index : t.binding with
    | none => rfl
    | some i => simp only [unbound i index]

theorem typeTexts_eq {ctx : Context} {parameters : List ParameterDecl} {texts : List String}
    (h : List.Forall₂ (fun parameter => TypeText ctx.bindings parameter.type) parameters texts) :
    texts = parameters.map (writtenTypeText ctx ·.type) := by
  induction h with
  | nil => rfl
  | cons own _ ih => rw [List.map_cons, ← own.eq, ← ih]

/-- A declaration that is known by what is written alone, and by all of it; `texts` are those of its parameter types. -/
structure Spelled (ctx : Context) (decl : MethodDecl) (texts : List String) : Prop where
  unbound : ∀ i, decl.binding = some i → ctx.bindings.methods[i]? = none
  name : '(' ∉ decl.name.toList
  types : List.Forall₂ (fun parameter => TypeText ctx.bindings parameter.type) decl.parameters texts
  listable : ∀ text ∈ texts, Java.Listable text

namespace Spelled

variable {ctx : Context} {decl : MethodDecl} {texts : List String}

theorem within (h : Spelled ctx decl texts) (owner : TypeId) :
    methodWithin ctx decl owner = methodOfUnboundDecl ctx decl owner := by
  unfold methodWithin BindingTable.resolveMethod BindingTable.resolveIn
  cases bound : decl.binding with
  | none => rfl
  | some i => simp only [h.unbound i bound]

/-- A declaration in a class is filed there under its signature. -/
theorem files (h : Spelled ctx decl texts) {d : Draft} {owner : TypeId} (owned : d.ownerType = some owner) :
    (methodOfDecl ctx decl d).2.registry.methods.get?
      (d.repository.typeName owner ++ "." ++ methodSignature decl.name texts) = some (methodOfDecl ctx decl d).1 := by
  rw [methodOfDecl_owned owned, h.within, typeTexts_eq h.types]
  exact (introduces_methodOfUnboundDecl ctx decl owner d).registers

end Spelled

end Draft

namespace Operation

open Draft (Spelled)

/-- Declarations in one class that have no binding are one method if and only if their names are the same and the
texts of their parameter types are, whatever is done between the one and the other. -/
theorem overloads_apart (ctx : Context) (history : List Operation) (fits : Admissible .bare ctx history {})
    (first second : MethodDecl) (texts others : List String) (spelled : Spelled ctx first texts)
    (also : Spelled ctx second others) (owner : TypeId) (between : List Operation) :
    let before := applyAll ctx history {}
    let made := Draft.methodOfDecl ctx first before
    let later := applyAll ctx between made.2
    let found := Draft.methodOfDecl ctx second later
    before.ownerType = some owner → later.ownerType = some owner →
      (made.1 = found.1 ↔ first.name = second.name ∧ texts = others) := by
  intro before made later found owned still
  have sound : Draft.Sound .bare before := sound_applyAll (Promises.bare_keeps ctx) history (sound_empty .bare) fits
  have since : Draft.Later made.2 later := .history ctx between made.2
  have declares : Draft.Later before made.2 := .path ((Draft.builds_methodOfDecl ctx first).any.path before)
  have finds : Draft.Later later found.2 := .path ((Draft.builds_methodOfDecl ctx second).any.path later)
  -- the class has the same name both times, so that the keys differ as the signatures do
  have name : later.repository.typeName owner = before.repository.typeName owner :=
    sound.sited.rooted.typeName_keep (declares.trans since).keeps (sound.sited.ownerType_holds owned)
  have one := (since.trans finds).registry.methods _ _ (spelled.files owned)
  have other := also.files still
  rw [name] at other
  have agree : found.2.registry.Matches found.2.repository :=
    ((Draft.builds_methodOfDecl ctx second).path later).agree (applyAll_agree ctx between
      (((Draft.builds_methodOfDecl ctx first).path before).agree (applyAll_agree ctx history .empty)))
  rw [agree.methods.eq_iff one other, String.append_right_inj,
    Java.methodSignature_inj spelled.name also.name spelled.listable also.listable]

/-- A method of two parameters, of which only the second is of a type in the table. -/
def pairDecl (first : Java.TypeExpr) (second : String) : MethodDecl where
  name := "m"
  binding := some 7
  isConstructor := false
  returnType := none
  parameters := [{ name := "n", type := { written := first, binding := some 5 } },
    { name := "a", type := { written := .simple second, binding := some 0 } }]
  modifiers := []
  body := []

theorem spelled_pairDecl (first : Java.TypeExpr) (second text : String) (same : first.text = text)
    (listable : Java.Listable text) :
    Spelled selfContext (pairDecl first second) [text, "p.A"] where
  unbound _ bound := Option.some.inj bound ▸ rfl
  name := by
    change '(' ∉ "m".toList
    decide
  types := by
    have table : selfContext.bindings.types[0]? = some (.inPackage "p" "A") := rfl
    exact .cons (same ▸ .written fun _ beyond => Option.some.inj beyond ▸ rfl) (.cons (.bound rfl table) .nil)
  listable := by simpa using ⟨listable, by decide +kernel⟩

/-- In one class `m(int, p.A)` is another method than `m(String, p.A)` and `m(List<?>[], p.A)`, and the same as one that
is written with another name of `p.A`. -/
theorem overloads_apart_self :
    let between : List Operation := [.leave, .unresolvedMethod "m(p.A)", .ensureNamespace "q", .enter (.type ⟨0⟩)]
    let wild : Java.TypeExpr := .array (.parameterized (.simple "List") [.wildcard none true]) 1
    let made := Draft.methodOfDecl selfContext (pairDecl (.primitive "int") "A") (applyAll selfContext selfHistory {})
    let later := applyAll selfContext between made.2
    Admissible .bare selfContext selfHistory {} ∧
      Spelled selfContext (pairDecl (.primitive "int") "A") ["int", "p.A"] ∧
      Spelled selfContext (pairDecl (.simple "String") "A") ["String", "p.A"] ∧
      Spelled selfContext (pairDecl wild "A") ["List<?>[]", "p.A"] ∧
      Spelled selfContext (pairDecl (.simple "int") "B") ["int", "p.A"] ∧
      (applyAll selfContext selfHistory {}).ownerType = some ⟨0⟩ ∧ later.ownerType = some ⟨0⟩ ∧
      made.1 ≠ (Draft.methodOfDecl selfContext (pairDecl (.simple "String") "A") later).1 ∧
      made.1 ≠ (Draft.methodOfDecl selfContext (pairDecl wild "A") later).1 ∧
      made.1 = (Draft.methodOfDecl selfContext (pairDecl (.simple "int") "B") later).1 := by
  intro between wild made later
  have number := spelled_pairDecl (.primitive "int") "A" "int" rfl (by decide +kernel)
  have word := spelled_pairDecl (.simple "String") "A" "String" rfl (by decide +kernel)
  have list := spelled_pairDecl wild "A" "List<?>[]" (by decide +kernel) (by decide +kernel)
  have again := spelled_pairDecl (.simple "int") "B" "int" rfl (by decide +kernel)
  have owned : (applyAll selfContext selfHistory {}).ownerType = some ⟨0⟩ := by decide +kernel
  have still : later.ownerType = some ⟨0⟩ := by decide +kernel
  refine ⟨selfHistory_admissible, number, word, list, again, owned, still, fun equal => ?_, fun equal => ?_, ?_⟩
  · have same := (overloads_apart selfContext selfHistory selfHistory_admissible _ _ _ _ number word ⟨0⟩ between owned
      still).mp equal
    exact absurd same.2 (by decide)
  · have same := (overloads_apart selfContext selfHistory selfHistory_admissible _ _ _ _ number list ⟨0⟩ between owned
      still).mp equal
    exact absurd same.2 (by decide)
  · exact (overloads_apart selfContext selfHistory selfHistory_admissible _ _ _ _ number again ⟨0⟩ between owned
      still).mpr ⟨rfl, rfl⟩

end Operation

end Famix
