import Famix.Proofs.Repetition
import Famix.Proofs.Visit

/-!
What the declaration of a type says of it. A declaration without a binding gives a type its kind and its supertypes
when it makes the type. A type that was there already, if only because something refers to it by name, keeps the kind
and the supertypes that it had, though it is marked as declared.
-/
namespace Famix

open Java (Project DeclarationKind TypeDecl TypeRef)

namespace Draft

/-- The kind of type that is declared: a class, an interface or an enum. -/
inductive DeclaresKind : DeclarationKind → TypeKind → Prop where
  | classType : DeclaresKind .classType (.classType false)
  | interfaceType : DeclaresKind .interfaceType (.classType true)
  | enumType : DeclaresKind .enumType .enumType

theorem declaresKind (declared : DeclarationKind) : DeclaresKind declared (declaredKind declared) := by
  cases declared <;> constructor

theorem not_present_type {id : TypeId} {d : Draft} (beyond : d.repository.types.size ≤ id.index) : ¬ Present id d :=
  Nat.not_lt_of_le beyond

/-- Whether a type is of the kind declared and has all of some supertypes. -/
structure AsDeclared (declared : DeclarationKind) (supertypes : List TypeId) (id : TypeId) (d : Draft) : Prop where
  kind : ∃ t, d.repository.type? id = some t ∧ DeclaresKind declared t.kind
  supertypes : ∀ s ∈ supertypes, s ∈ d.repository.supertypesOf id

section Steps

variable (ctx : Context) {d : Draft} {id : TypeId}

theorem same_of_resolving (old : Present id d) {e : Draft} (path : Path (Change.Resolving fun _ => False) d e) :
    Same id d e := path.same old not_false

theorem typeOfRef_same (old : Present id d) (t : TypeRef) : Same id d (typeOfRef ctx t d).2 := by
  unfold typeOfRef
  cases ctx.bindings.resolveType t.binding t.written with
  | resolved i b => exact (resolveIndex_runs ctx.bindings i d).frame old nofun
  | unresolved written =>
    dsimp only [typeOfExpr]
    cases written.recoveredName with
    | some name => exact same_of_resolving old (unknownTypeNamed_path name d)
    | none => exact same_of_resolving old (unknownType_path d)

/-- The supertypes of a list of references come after those that a type has, in the order of the list. They are what
the references lead to from then on. -/
theorem inheritRefs_effect (ts : List TypeRef) (old : Present id d) :
    (inheritRefs ctx id ts d).2.repository.type? id = d.repository.type? id ∧
      ∀ e, Later (inheritRefs ctx id ts d).2 e → e.scope.current = d.scope.current →
        (inheritRefs ctx id ts d).2.repository.supertypesOf id =
          d.repository.supertypesOf id ++ ts.map fun t => (typeOfRef ctx t e).1 := by
  induction ts generalizing d with
  | nil => exact ⟨rfl, fun _ _ _ => (List.append_nil _).symm⟩
  | cons t ts ih =>
    have refers := (builds_typeOfRef ctx t).path d
    have same := typeOfRef_same ctx old t
    let linked := (Change.inheritance id (typeOfRef ctx t d).1).apply (typeOfRef ctx t d).2
    have held : Present id linked := Nat.lt_of_lt_of_le old refers.before.types
    have grown : linked.repository.supertypesOf id =
        (typeOfRef ctx t d).2.repository.supertypesOf id ++ [(typeOfRef ctx t d).1] :=
      (Postings.of_file ..).trans (congrArg (_ ++ ·) (if_pos rfl))
    obtain ⟨type, supertypes⟩ := ih held
    refine ⟨type.trans same.type, fun e later top => ?_⟩
    have rest : Later linked (inheritRefs ctx id ts linked).2 := .path ((builds_inheritRefs ctx id ts).path linked)
    have again := (lasts_typeOfRef ctx t).again e (((Later.change _ _).trans rest).trans later) top
    rw [List.map_cons, again]
    calc (inheritRefs ctx id ts linked).2.repository.supertypesOf id
        = linked.repository.supertypesOf id ++ ts.map fun t => (typeOfRef ctx t e).1 :=
          supertypes e later (top.trans (congrArg Scope.current refers.scope).symm)
      _ = d.repository.supertypesOf id ++ (typeOfRef ctx t d).1 :: ts.map fun t => (typeOfRef ctx t e).1 := by
          rw [grown, same.supertypes, List.append_assoc, List.singleton_append]

theorem containerOrUnknown_types (d : Draft) :
    (containerOrUnknown d).2.repository.types = d.repository.types ∧
      (containerOrUnknown d).2.repository.supertypesByType = d.repository.supertypesByType := by
  unfold containerOrUnknown
  rw [get_bind_apply]
  cases d.scope.current with
  | some c => exact ⟨rfl, rfl⟩
  | none => exact unknownNamespace_types d

end Steps

/-- What a declaration without a binding comes to: it finds a type and leaves it as it is, or makes one. -/
inductive Declaring (ctx : Context) (decl : TypeDecl) (d : Draft) : TypeId → Draft → Prop where
  | found {id : TypeId} {e : Draft} (there : Present id d) (same : Same id d e) : Declaring ctx decl d id e
  | made {id : TypeId} {e : Draft} (absent : ¬ Present id d)
      (kind : ∃ t, e.repository.type? id = some t ∧ DeclaresKind decl.kind t.kind)
      (supertypes : ∀ f, Later e f → f.scope.current = d.scope.current → e.repository.supertypesOf id =
        (decl.superclass.toList ++ decl.interfaces).map fun t => (typeOfRef ctx t f).1) : Declaring ctx decl d id e

/-- The type of a declaration under a key. -/
def declaredUnder (ctx : Context) (decl : TypeDecl) (key : String) (c : Container) : Drafting TypeId := do
  match ← internType key decl.name c (declaredKind decl.kind) with
  | .existing id => return id
  | .created id =>
    inheritRefs ctx id (decl.superclass.toList ++ decl.interfaces)
    return id

theorem typeOfUnboundDecl_eq (ctx : Context) (decl : TypeDecl) (d : Draft) : typeOfUnboundDecl ctx decl d =
    declaredUnder ctx decl ((containerOrUnknown d).2.repository.childName (containerOrUnknown d).1 decl.name)
      (containerOrUnknown d).1 (containerOrUnknown d).2 := rfl

section Under

variable (ctx : Context) (decl : TypeDecl) {key : String} {c : Container} {e : Draft}

theorem declaredUnder_of_some {id : TypeId} (known : e.registry.types.get? key = some id) :
    declaredUnder ctx decl key c e = (id, e) := by
  simp only [declaredUnder, bind, StateT.bind, internType_of_some known]
  rfl

theorem declaredUnder_of_none (fresh : e.registry.types.get? key = none) : declaredUnder ctx decl key c e =
    (⟨e.repository.types.size⟩, (inheritRefs ctx ⟨e.repository.types.size⟩ (decl.superclass.toList ++ decl.interfaces)
      (e.addType key decl.name c (declaredKind decl.kind) fresh)).2) := by
  simp only [declaredUnder, bind, StateT.bind, internType_of_none fresh]
  rfl

end Under

theorem typeOfUnboundDecl_declaring (ctx : Context) (decl : TypeDecl) {d : Draft} (sound : Sound .links d) :
    Declaring ctx decl d (typeOfUnboundDecl ctx decl d).1 (typeOfUnboundDecl ctx decl d).2 := by
  obtain ⟨types, postings⟩ := containerOrUnknown_types d
  have outer := (achieves_containerOrUnknown sound).walk.sound sound
  have scope := builds_containerOrUnknown.scope d
  rw [typeOfUnboundDecl_eq]
  generalize containerOrUnknown d = start at types postings outer scope ⊢
  obtain ⟨c, e⟩ := start
  dsimp only at types postings outer scope ⊢
  have size : e.repository.types.size = d.repository.types.size := congrArg Array.size types
  generalize e.repository.childName c decl.name = key
  cases looked : e.registry.types.get? key with
  | some id =>
    rw [declaredUnder_of_some ctx decl looked]
    have there : Present id d := Nat.lt_of_lt_of_eq (outer.holds_type looked) size
    exact .found there ⟨congrArg (·[id.index]?) types, congrArg (·.of id) postings⟩
  | none =>
    rw [declaredUnder_of_none ctx decl looked]
    let added := e.addType key decl.name c (declaredKind decl.kind) looked
    have grown : added.repository.types.size = e.repository.types.size + 1 := Array.size_push _
    have new : Present (⟨e.repository.types.size⟩ : TypeId) added := by
      change e.repository.types.size < added.repository.types.size
      omega
    have known : added.repository.type? ⟨e.repository.types.size⟩ = some { NamedEntity.stub decl.name with
        id := ⟨e.repository.types.size⟩, container := c, kind := declaredKind decl.kind } := Array.getElem?_push_size
    have unlinked : added.repository.supertypesOf ⟨e.repository.types.size⟩ = [] :=
      outer.linked trivial _ (Nat.le_refl _)
    obtain ⟨type, supertypes⟩ := inheritRefs_effect ctx (decl.superclass.toList ++ decl.interfaces) new
    refine .made (Nat.not_lt_of_le (Nat.le_of_eq size.symm)) ⟨_, type.trans known, declaresKind _⟩ fun f later top => ?_
    rw [supertypes f later (top.trans (congrArg Scope.current scope).symm), unlinked, List.nil_append]

theorem resolveType_unbound {table : Java.BindingTable} {i : Option Java.TypeIndex}
    (unbound : ∀ j, i = some j → table.types[j]? = none) (hint : β) : table.resolveType i hint = .unresolved hint := by
  unfold Java.BindingTable.resolveType Java.BindingTable.resolveIn
  cases i with
  | none => rfl
  | some j => simp only [unbound j rfl]

theorem typeOfDecl_unbound (ctx : Context) (decl : TypeDecl)
    (unbound : ∀ i, decl.binding = some i → ctx.bindings.types[i]? = none) (d : Draft) : typeOfDecl ctx decl d =
      ((typeOfUnboundDecl ctx decl d).1, (Change.typeDeclared (typeOfUnboundDecl ctx decl d).1 decl.modifiers).apply
        (typeOfUnboundDecl ctx decl d).2) := by
  unfold typeOfDecl
  rw [resolveType_unbound unbound]
  rfl

theorem Declaring.populates {ctx : Context} {decl : TypeDecl} {d e : Draft} {id : TypeId}
    (h : Declaring ctx decl d id e) (there : Present id e) (scope : e.scope = d.scope) :
    let after := (Change.typeDeclared id decl.modifiers).apply e
    let named := (decl.superclass.toList ++ decl.interfaces).map fun t => (typeOfRef ctx t after).1
    (∃ t, after.repository.type? id = some t ∧ t.isStub = false) ∧
      (¬ Present id d → (∃ t, after.repository.type? id = some t ∧ DeclaresKind decl.kind t.kind) ∧
        after.repository.supertypesOf id = named) ∧
      (AsDeclared decl.kind named id after ↔
        (Present id d → AsDeclared decl.kind named id d)) := by
  intro after named
  have changed : after.repository.type? id = (e.repository.type? id).map fun t =>
      { t with toNamedEntity := t.toNamedEntity.declare decl.modifiers } :=
    (Array.getElem?_modify ..).trans (if_pos rfl)
  have kinds : (∃ t, after.repository.type? id = some t ∧ DeclaresKind decl.kind t.kind) ↔
      ∃ t, e.repository.type? id = some t ∧ DeclaresKind decl.kind t.kind := by
    rw [changed]
    simp
  have supers : after.repository.supertypesOf id = e.repository.supertypesOf id := rfl
  have stub : ∃ t, after.repository.type? id = some t ∧ t.isStub = false := by
    rw [changed, show e.repository.type? id = some _ from Array.getElem?_eq_getElem there]
    exact ⟨_, rfl, rfl⟩
  cases h with
  | found old same =>
    refine ⟨stub, fun absent => absurd old absent, ?_⟩
    have kept : AsDeclared decl.kind named id after ↔ AsDeclared decl.kind named id d := by
      constructor
      · rintro ⟨kind, listed⟩
        rw [kinds, same.type] at kind
        rw [supers, same.supertypes] at listed
        exact ⟨kind, listed⟩
      · rintro ⟨kind, listed⟩
        rw [← same.type, ← kinds] at kind
        rw [← same.supertypes, ← supers] at listed
        exact ⟨kind, listed⟩
    exact ⟨fun full _ => kept.mp full, fun full => kept.mpr (full old)⟩
  | made absent kind supertypes =>
    have listed : after.repository.supertypesOf id = named :=
      supertypes after (.change _ e) (congrArg Scope.current scope)
    have kind := kinds.mpr kind
    refine ⟨stub, fun _ => ⟨kind, listed⟩, fun _ there => absurd there absent, fun _ => ⟨kind, fun s mem => ?_⟩⟩
    rw [listed]
    exact mem

end Draft

/-- A type declared in the source, without a usable binding, is never left a stub. If the declaration makes it, it has
the kind that is declared, and its supertypes are the types that the declaration names, in their order. In general it
has the kind and all those supertypes exactly if, being there before, it had them before: a type that was only referred
to by its name is not given them. -/
theorem declaration_populates (project : Project) (keying : AttributeKeying) :
    let ctx : Context := { bindings := project.bindings, keying }
    ∀ p ∈ Mark.places (readUnits project.units), ∀ decl : TypeDecl, p.mark = .type decl →
      (∀ i, decl.binding = some i → project.bindings.types[i]? = none) →
      let before := p.draft ctx
      let id := (Draft.typeOfDecl ctx decl before).1
      let after := (Draft.typeOfDecl ctx decl before).2
      let named := (decl.superclass.toList ++ decl.interfaces).map fun t => (Draft.typeOfRef ctx t after).1
      (∃ t, after.repository.type? id = some t ∧ t.isStub = false) ∧
        (¬ Draft.Present id before →
          (∃ t, after.repository.type? id = some t ∧ Draft.DeclaresKind decl.kind t.kind) ∧
            after.repository.supertypesOf id = named) ∧
        (Draft.AsDeclared decl.kind named id after ↔
          (Draft.Present id before → Draft.AsDeclared decl.kind named id before)) := by
  rintro ctx p - decl - unbound
  have kept : ctx.Keeps .links := fun promised => promised.elim
  have sound : Draft.Sound .links (p.draft ctx) := Mark.sound_actAll ctx p.before
  have there : Draft.Present (Draft.typeOfUnboundDecl ctx decl (p.draft ctx)).1 _ :=
    (Draft.achieves_typeOfUnboundDecl kept sound False.elim).post
  dsimp only
  rw [Draft.typeOfDecl_unbound ctx decl unbound]
  exact (Draft.typeOfUnboundDecl_declaring ctx decl sound).populates there
    ((Draft.builds_typeOfUnboundDecl ctx decl).scope _)

/-- An interface that extends one that is not declared, and an enum that implements it and another. -/
def shapeDecl : TypeDecl where
  name := "Shape"
  kind := .interfaceType
  binding := none
  modifiers := []
  superclass := none
  interfaces := [{ written := .simple "Drawn" }]
  body := []

def colorDecl : TypeDecl where
  name := "Color"
  kind := .enumType
  binding := some 3
  modifiers := []
  superclass := none
  interfaces := [{ written := .simple "Shape" }, { written := .simple "Named" }]
  body := []

def shapeProject : Project where
  units := [{ types := [shapeDecl, colorDecl] }]

def shapePlace : Place := ⟨[], .type shapeDecl⟩

def colorPlace : Place := ⟨[.type shapeDecl, .close], .type colorDecl⟩

theorem declaration_populates_shapes :
    let shape := Draft.typeOfDecl {} shapeDecl (shapePlace.draft {})
    let color := Draft.typeOfDecl {} colorDecl (colorPlace.draft {})
    let given (name : String) (d : Draft) := (Draft.typeOfRef {} { written := .simple name } d).1
    shapePlace ∈ Mark.places (readUnits shapeProject.units) ∧ ¬ Draft.Present shape.1 (shapePlace.draft {}) ∧
      (∃ t, shape.2.repository.type? shape.1 = some t ∧ t.kind = .classType true) ∧
      shape.2.repository.supertypesOf shape.1 = [given "Drawn" shape.2] ∧
    colorPlace ∈ Mark.places (readUnits shapeProject.units) ∧ ¬ Draft.Present color.1 (colorPlace.draft {}) ∧
      (∃ t, color.2.repository.type? color.1 = some t ∧ t.kind = .enumType) ∧
      color.2.repository.supertypesOf color.1 = [given "Shape" color.2, given "Named" color.2] := by
  dsimp only
  have places : Mark.places (readUnits shapeProject.units) =
      [shapePlace, ⟨[.type shapeDecl], .close⟩, colorPlace, ⟨colorPlace.before ++ [.type colorDecl], .close⟩] := rfl
  have first : shapePlace ∈ Mark.places (readUnits shapeProject.units) := by simp [places]
  have second : colorPlace ∈ Mark.places (readUnits shapeProject.units) := by simp [places]
  have fresh : ¬ Draft.Present (Draft.typeOfDecl {} shapeDecl (shapePlace.draft {})).1 (shapePlace.draft {}) :=
    Draft.not_present_type (Nat.zero_le _)
  have other : ¬ Draft.Present (Draft.typeOfDecl {} colorDecl (colorPlace.draft {})).1 (colorPlace.draft {}) :=
    Draft.not_present_type (by decide +kernel)
  have populates := declaration_populates shapeProject .keyed
  -- with the table spelled out, drafts are not compared step by step
  have context : ({ bindings := shapeProject.bindings, keying := .keyed } : Context) = {} := rfl
  dsimp only at populates
  rw [context] at populates
  obtain ⟨-, made, -⟩ := populates shapePlace first shapeDecl rfl nofun
  obtain ⟨-, also, -⟩ := populates colorPlace second colorDecl rfl (fun i bound => Option.some.inj bound ▸ rfl)
  obtain ⟨⟨t, known, kind⟩, above⟩ := made fresh
  obtain ⟨⟨u, found, sort⟩, ground⟩ := also other
  refine ⟨first, fresh, ⟨t, known, ?_⟩, above, second, other, ⟨u, found, ?_⟩, ground⟩
  · generalize t.kind = k at kind
    cases kind
    rfl
  · generalize u.kind = k at sort
    cases sort
    rfl

def aheadField : Java.FieldDecl where
  type := { written := .simple "B" }
  modifiers := []
  fragments := [⟨"f", none, none⟩]

/-- A class that has a field of a class declared after it; both extend a class that is not declared. -/
def earlierDecl : TypeDecl where
  name := "A"
  kind := .classType
  binding := none
  modifiers := []
  superclass := some { written := .simple "C" }
  interfaces := []
  body := [.field aheadField]

def laterDecl : TypeDecl := { earlierDecl with name := "B", body := [] }

def aheadProject : Project where
  units := [{ types := [earlierDecl, laterDecl] }]

def laterPlace : Place := ⟨[.type earlierDecl, .field ⟨"f", none, none⟩ aheadField, .close], .type laterDecl⟩

theorem places_aheadProject : Mark.places (readUnits aheadProject.units) =
    [⟨[], .type earlierDecl⟩, ⟨[.type earlierDecl], .field ⟨"f", none, none⟩ aheadField⟩,
      ⟨[.type earlierDecl, .field ⟨"f", none, none⟩ aheadField], .close⟩, laterPlace,
      ⟨laterPlace.before ++ [.type laterDecl], .close⟩] := rfl

/-- The second class is there when it is declared, as the type of the field, and stays as it was. -/
theorem declaration_overlooked :
    let result := Draft.typeOfDecl {} laterDecl (laterPlace.draft {})
    let named := (laterDecl.superclass.toList ++ laterDecl.interfaces).map fun t =>
      (Draft.typeOfRef {} t result.2).1
    laterPlace ∈ Mark.places (readUnits aheadProject.units) ∧ laterPlace.mark = .type laterDecl ∧
      ¬ Draft.AsDeclared laterDecl.kind named result.1 result.2 := by
  intro result named
  refine ⟨?_, rfl, fun full => ?_⟩
  · rw [places_aheadProject]
    simp
  · have unknown : (result.2.repository.type? result.1).map (·.kind) = some .unknown := by decide +kernel
    obtain ⟨t, known, kind⟩ := full.kind
    rw [known, Option.map_some] at unknown
    rw [Option.some.inj unknown] at kind
    cases kind

end Famix
