import Famix.Proofs.Expression
import Famix.Proofs.Portrait

/-!
MSE texts are read back. From the text of a model its stanzas are recovered exactly, whatever the names and
signatures in it, so that models that are described differently have different texts.
-/
namespace Famix.Mse

/-- A name that is read as one word. -/
def IsWord (name : String) : Prop := name.toList ≠ [] ∧ ∀ c ∈ name.toList, Plain c

-- decided character by character of the name, not over all characters there are
instance (name : String) : Decidable (IsWord name) :=
  @instDecidableAnd _ _ inferInstance (List.decidableBAll Plain name.toList)

def number? (digits : List Char) : Option Nat :=
  if digits.all Char.isDigit then some (Nat.ofDigitChars 10 digits 0) else none

def flag? (chars : List Char) : Option Bool :=
  if chars = "true".toList then some true
  else if chars = "false".toList then some false
  else none

namespace Tree

def text? : Tree → Option String
  | .text chars => some (String.ofList chars)
  | _ => none

def marked? (word : String) : Tree → Option Nat
  | .group [.word chars, .word digits] => if chars = word.toList then number? digits else none
  | _ => none

end Tree

/-- A property by its name and what stands after it. Only modifiers are a list of texts. -/
def Property.ofItems? (name : String) (items : List Tree) : Option Property :=
  if name = "modifiers" then (items.mapM Tree.text?).map (.texts name)
  else
    match items with
    | [.text value] => some (.text name (String.ofList value))
    | [.word value] => (flag? value).map (.flag name)
    | items => (items.mapM (Tree.marked? "ref:")).map (.references name)

def Property.ofTree? : Tree → Option Property
  | .group (.word name :: items) => ofItems? (String.ofList name) items
  | _ => none

def Stanza.ofTree? : Tree → Option Stanza
  | .group (.word head :: id :: properties) => do
    let className ← stripFront "FAMIX.".toList head
    let number ← id.marked? "id:"
    let properties ← properties.mapM Property.ofTree?
    return ⟨String.ofList className, number, properties⟩
  | _ => none

def decode (s : String) : Option (List Stanza) := do
  match ← parse s.toList with
  | [.group stanzas] => stanzas.mapM Stanza.ofTree?
  | _ => none

/-! The trees as which numbers, properties and stanzas are read. -/

def markedTree (word : String) (n : Nat) : Tree := .group [.word word.toList, .word (writeNumber n)]

def textTree (s : String) : Tree := .text s.toList

def Property.itemTrees : Property → List Tree
  | .text _ value => [textTree value]
  | .flag _ value => [.word (if value then "true" else "false").toList]
  | .references _ targets => targets.map (markedTree "ref:")
  | .texts _ values => values.map textTree

def Property.tree (p : Property) : Tree := .group (.word p.name.toList :: p.itemTrees)

def Stanza.tree (s : Stanza) : Tree :=
  .group (.word ("FAMIX." ++ s.className).toList :: markedTree "id:" s.number :: s.properties.map Property.tree)

theorem plain_of_isDigit {c : Char} (digit : c.isDigit) : Plain c := by
  have apart : ∀ d : Char, d.isDigit = false → c ≠ d := by
    rintro d none rfl
    exact absurd digit (by simp [none])
  have parts := And.intro (apart '(' rfl) (And.intro (apart ')' rfl) (And.intro (apart ' ' rfl) (apart '\n' rfl)))
  exact ⟨by simp [delimiter?, parts], apart '\'' rfl⟩

theorem reads_number (n : Nat) : Reads (writeNumber n) [.word (writeNumber n)] :=
  .word Nat.toDigits_ne_nil fun _ digit => plain_of_isDigit (Nat.isDigit_of_mem_toDigits (by decide) (by decide) digit)

theorem number?_writeNumber (n : Nat) : number? (writeNumber n) = some n := by
  have digits : (writeNumber n).all Char.isDigit = true :=
    List.all_eq_true.mpr fun _ digit => Nat.isDigit_of_mem_toDigits (by decide) (by decide) digit
  rw [number?, if_pos digits, writeNumber, Nat.ofDigitChars_ten_toDigits]

theorem reads_marked {word : String} (isWord : IsWord word) (n : Nat) :
    Reads (marked word n) (markedTree word n).lexemes := by
  have inner := (Reads.word isWord.1 isWord.2).around (c := ' ') rfl (reads_number n)
  have items : lexemesAll [Tree.word word.toList, .word (writeNumber n)] =
      [.word word.toList] ++ [] ++ [.word (writeNumber n)] := rfl
  rw [← items] at inner
  simpa [marked, markedTree] using inner.group

theorem marked?_markedTree (word : String) (n : Nat) : (markedTree word n).marked? word = some n := by
  rw [markedTree, Tree.marked?, if_pos rfl, number?_writeNumber]

theorem text?_textTree (s : String) : (textTree s).text? = some s := by
  rw [textTree, Tree.text?, String.ofList_toList]

theorem mapM_map {α : Type} {tree : α → Tree} {read : Tree → Option α} (xs : List α)
    (each : ∀ x ∈ xs, read (tree x) = some x) : (xs.map tree).mapM read = some xs := by
  induction xs with
  | nil => rfl
  | cons x rest ih =>
    obtain ⟨own, others⟩ := List.forall_mem_cons.mp each
    simp [List.mapM_cons, own, ih others]

namespace Property

/-- Named by a word, and by that of the modifiers if it is a list of texts. -/
def Readable : Property → Prop
  | .text name _ | .flag name _ | .references name _ => IsWord name ∧ name ≠ "modifiers"
  | .texts name _ => name = "modifiers"

theorem Readable.isWord {p : Property} (readable : p.Readable) : IsWord p.name := by
  cases p with
  | text | flag | references => exact readable.1
  | texts name values =>
    have modifiers : name = "modifiers" := readable
    rw [Property.name, modifiers]
    decide

theorem reads_write {p : Property} (readable : p.Readable) : Reads p.write p.tree.lexemes := by
  have head := Reads.word readable.isWord.1 readable.isWord.2
  have inner : Reads (p.name.toList ++ p.items.flatMap (' ' :: ·))
      (lexemesAll (.word p.name.toList :: p.itemTrees)) := by
    cases p with
    | text name value =>
      have each : ∀ v ∈ [value], Reads (quote v) (textTree v).lexemes := fun v _ => Reads.quote v
      exact .items [value] each head
    | flag name value =>
      have each : ∀ b ∈ [value], Reads (if b then "true" else "false").toList
          (Tree.word (if b then "true" else "false").toList).lexemes := by
        rintro b -
        have isWord : IsWord (if b then "true" else "false") := by cases b <;> decide
        exact .word isWord.1 isWord.2
      exact .items [value] each head
    | references name targets =>
      have each : ∀ n ∈ targets, Reads (marked "ref:" n) (markedTree "ref:" n).lexemes :=
        fun n _ => reads_marked (by decide) n
      simpa [items, itemTrees, lexemesAll, Tree.lexemes, List.flatMap_map] using Reads.items targets each head
    | texts name values =>
      have each : ∀ v ∈ values, Reads (quote v) (textTree v).lexemes := fun v _ => Reads.quote v
      simpa [items, itemTrees, lexemesAll, Tree.lexemes, List.flatMap_map] using Reads.items values each head
  simpa [write, tree] using inner.group

theorem ofItems?_references {name : String} (other : name ≠ "modifiers") (targets : List Nat) :
    ofItems? name (targets.map (markedTree "ref:")) = some (.references name targets) := by
  have read := mapM_map targets fun n _ => marked?_markedTree "ref:" n
  rw [ofItems?, if_neg other, read]
  · rfl
  · intro value items
    cases targets <;> simp [markedTree] at items
  · intro value items
    cases targets <;> simp [markedTree] at items

theorem ofTree?_tree {p : Property} (readable : p.Readable) : ofTree? p.tree = some p := by
  rw [tree, ofTree?, String.ofList_toList]
  cases p with
  | text name value => simp [ofItems?, itemTrees, Property.name, readable.2, textTree]
  | flag name value => cases value <;> simp [ofItems?, itemTrees, Property.name, readable.2, flag?]
  | references name targets => exact ofItems?_references readable.2 targets
  | texts name values =>
    have modifiers : name = "modifiers" := readable
    have read := mapM_map values fun s _ => text?_textTree s
    simp [ofItems?, itemTrees, Property.name, modifiers, read]

end Property

namespace Stanza

/-- Its class is named by a word, and so are its properties. -/
structure Readable (s : Stanza) : Prop where
  className : ∀ c ∈ s.className.toList, Plain c
  properties : ∀ p ∈ s.properties, p.Readable

theorem write_eq (s : Stanza) : s.write =
    '(' :: (("FAMIX." ++ s.className).toList ++ ' ' :: marked "id:" s.number ++
      (s.properties.flatMap fun p => ' ' :: p.write) ++ [')']) := by
  have opened : "(FAMIX.".toList = '(' :: "FAMIX.".toList := by simp
  unfold write
  rw [opened, String.toList_append]
  generalize "FAMIX.".toList = front
  simp only [List.cons_append, List.append_assoc]

theorem isWord_head {s : Stanza} (readable : s.Readable) : IsWord ("FAMIX." ++ s.className) := by
  have front : IsWord "FAMIX." := by decide
  unfold IsWord
  rw [String.toList_append]
  refine ⟨List.append_ne_nil_of_left_ne_nil front.1 _, fun c mem => ?_⟩
  rcases List.mem_append.mp mem with mem | mem
  · exact front.2 c mem
  · exact readable.className c mem

theorem reads_write {s : Stanza} (readable : s.Readable) : Reads s.write s.tree.lexemes := by
  have isWord := isWord_head readable
  have head := (Reads.word isWord.1 isWord.2).around (c := ' ') rfl
    (reads_marked (by decide : IsWord "id:") s.number)
  have inner := Reads.items s.properties (fun p mem => Property.reads_write (readable.properties p mem)) head
  rw [write_eq]
  exact inner.group

theorem ofTree?_tree {s : Stanza} (readable : s.Readable) : ofTree? s.tree = some s := by
  have properties := mapM_map s.properties fun p mem => Property.ofTree?_tree (readable.properties p mem)
  have className : stripFront "FAMIX.".toList ("FAMIX." ++ s.className).toList = some s.className.toList :=
    stripFront_eq_some.mpr String.toList_append
  rw [tree, ofTree?, className, marked?_markedTree, properties]
  simp

end Stanza

/-- The text of stanzas is read back as these stanzas. -/
theorem decode_write {stanzas : List Stanza} (readable : ∀ s ∈ stanzas, s.Readable) :
    decode (String.ofList (write stanzas)) = some stanzas := by
  have lines := Reads.lines stanzas fun s mem => Stanza.reads_write (readable s mem)
  have inner : Reads ('\n' :: stanzas.flatMap fun s => s.write ++ ['\n']) (lexemesAll (stanzas.map Stanza.tree)) := by
    simpa using Reads.nil.around (c := '\n') rfl lines
  have parsed := parse_of_reads inner.group
  have text : write stanzas =
      '(' :: ('\n' :: (stanzas.flatMap fun s => s.write ++ ['\n']) ++ [')']) ++ ['\n'] := by simp [write]
  rw [decode, String.toList_ofList, text, parsed]
  exact mapM_map stanzas fun s mem => Stanza.ofTree?_tree (readable s mem)

end Famix.Mse

namespace Famix

open Mse (IsWord)

/-! The words that portraits use. -/

def classNames : List String :=
  ["Namespace", "Type", "PrimitiveType", "Class", "Enum", "ParameterizableClass", "ParameterizedType", "ParameterType",
    "Method", "Attribute", "Parameter", "LocalVariable", "Inheritance", "Invocation", "Access"]

def featureNames : List String :=
  ["name", "isStub", "container", "isInterface", "parameterizableClass", "arguments", "parentType", "signature", "kind",
    "declaredType", "parentBehaviouralEntity", "subclass", "superclass", "sender", "candidates", "accessor", "variable",
    "isWrite"]

theorem classNames_words : ∀ name ∈ classNames, IsWord name ∧ name ≠ "Entity" := by decide +kernel

theorem featureNames_words : ∀ name ∈ featureNames, IsWord name ∧ name ≠ "modifiers" := by decide +kernel

def Feature.Listed : Feature → Prop
  | .text name _ | .flag name _ | .references name _ => name ∈ featureNames
  | .modifiers _ => True

def Portrait.Listed (p : Portrait) : Prop := p.className ∈ classNames ∧ ∀ f ∈ p.features, f.Listed

theorem Feature.Listed.properties {f : Feature} (listed : f.Listed) (number? : Element → Option Nat) :
    ∀ q ∈ f.properties number?, q.Readable := by
  intro q mem
  cases f with
  | text name value =>
    rw [List.mem_singleton.mp mem]
    exact featureNames_words name listed
  | flag name value =>
    rw [List.mem_singleton.mp mem]
    exact featureNames_words name listed
  | modifiers members =>
    rw [Feature.properties] at mem
    split at mem
    · exact absurd mem List.not_mem_nil
    · rw [List.mem_singleton.mp mem]
      rfl
  | references name targets =>
    rw [Feature.properties] at mem
    split at mem
    · exact absurd mem List.not_mem_nil
    · rw [List.mem_singleton.mp mem]
      exact featureNames_words name listed

theorem Portrait.Listed.stanza {p : Portrait} (listed : p.Listed) (number? : Element → Option Nat) (number : Nat) :
    (p.stanza number? number).Readable where
  className := (classNames_words p.className listed.1).1.2
  properties q mem := by
    obtain ⟨f, said, written⟩ := List.mem_flatMap.mp mem
    exact (listed.2 f said).properties number? q written

namespace Repository

variable {r : Repository}

theorem portrait?_listed {e : Element} {p : Portrait} (known : r.portrait? e = some p) : p.Listed := by
  obtain ⟨kind, index⟩ := e
  cases kind <;> obtain ⟨x, -, rfl⟩ := Option.map_eq_some_iff.mp known
  case ns =>
    simp [Portrait.Listed, Feature.Listed, NamespaceEntity.portrait, NamedEntity.features, classNames, featureNames]
  case type =>
    cases kind : x.kind <;>
      simp [Portrait.Listed, Feature.Listed, TypeEntity.portrait, NamedEntity.features, kind, TypeKind.features,
        TypeKind.title, classNames, featureNames]
  case method =>
    cases kind : x.kind <;>
      simp [Portrait.Listed, Feature.Listed, MethodEntity.portrait, NamedEntity.features, kind, MethodKind.features,
        classNames, featureNames]
  case «attribute» =>
    simp [Portrait.Listed, Feature.Listed, AttributeEntity.portrait, NamedEntity.features, classNames, featureNames]
  case parameter =>
    simp [Portrait.Listed, Feature.Listed, ParameterEntity.portrait, NamedEntity.features, classNames, featureNames]
  case localVariable =>
    simp [Portrait.Listed, Feature.Listed, LocalVariableEntity.portrait, NamedEntity.features, classNames, featureNames]
  case inheritance => simp [Portrait.Listed, Feature.Listed, Inheritance.portrait, classNames, featureNames]
  case invocation => simp [Portrait.Listed, Feature.Listed, Invocation.portrait, classNames, featureNames]
  case access => simp [Portrait.Listed, Feature.Listed, Access.portrait, classNames, featureNames]

/-- What is said of each element in turn, the first being number one. -/
def description (r : Repository) : List (Option Mse.Stanza) :=
  r.order.toList.zipIdx.map fun (e, k) => (r.portrait? e).map (·.stanza r.number? (k + 1))

theorem Filed.portrayed (h : r.Filed) {e : Element} {k : Nat} (mem : (e, k) ∈ r.order.toList.zipIdx) :
    ∃ p, r.portrait? e = some p :=
  portrait?_of_holds ((h.all e).mp (List.fst_mem_of_mem_zipIdx mem))

theorem Filed.description_eq (h : r.Filed) : r.description = r.stanzas.map some := by
  rw [description, stanzas, List.map_map]
  refine List.map_congr_left fun (e, k) mem => ?_
  obtain ⟨p, known⟩ := h.portrayed mem
  simp [known, describe_of_portrait known, Portrait.stanza]

theorem Filed.stanza_portrait (h : r.Filed) {s : Mse.Stanza} (mem : s ∈ r.stanzas) :
    ∃ (p : Portrait) (k : Nat), p.Listed ∧ s = p.stanza r.number? (k + 1) := by
  obtain ⟨⟨e, k⟩, listed, rfl⟩ := List.mem_map.mp mem
  obtain ⟨p, known⟩ := h.portrayed listed
  exact ⟨p, k, portrait?_listed known, by simp [describe_of_portrait known, Portrait.stanza]⟩

theorem Filed.decode (h : r.Filed) : Mse.decode r.mse = some r.stanzas := by
  refine Mse.decode_write fun s mem => ?_
  obtain ⟨p, k, listed, rfl⟩ := h.stanza_portrait mem
  exact listed.stanza r.number? (k + 1)

end Repository

/-- The text of a repository that is built by insertions, of whatever names and signatures, is decoded to what is said
of its elements in turn, where numbers are places in the order. So no two repositories that are described differently
have the same text, and no stanza is without a class or a number of its own. -/
theorem Insertion.decode_mse (insertions : List Insertion) :
    let r := build insertions
    ∃ stanzas, Mse.decode r.mse = some stanzas ∧ r.description = stanzas.map some ∧
      (∀ s ∈ stanzas, s.className ≠ "Entity" ∧ s.number ≠ 0) ∧
      (∀ e n, r.number? e = some n ↔ ∃ k, n = k + 1 ∧ r.order[k]? = some e) ∧
      ∀ others, (build others).description ≠ r.description → (build others).mse ≠ r.mse := by
  intro r
  have filed : r.Filed := .build insertions
  refine ⟨r.stanzas, filed.decode, filed.description_eq, fun s mem => ?_, fun _ _ => filed.number?_eq_some, ?_⟩
  · obtain ⟨p, k, listed, rfl⟩ := filed.stanza_portrait mem
    exact ⟨(classNames_words p.className listed.1).2, Nat.succ_ne_zero k⟩
  · intro others apart same
    have other : (build others).Filed := .build others
    have stanzas : some (build others).stanzas = some r.stanzas := by rw [← other.decode, same, filed.decode]
    exact apart (by rw [other.description_eq, filed.description_eq, Option.some.inj stanzas])

end Famix
