import Famix.Proofs.Anonymous
import Famix.Proofs.Convergence
import Famix.Proofs.Keying
import Famix.Proofs.Mirror

/-!
The bodies of anonymous classes. A method belongs to the class whose body it stands in, and so does a field, unless its
binding names the class that declares it: then the field goes to the type that has the name which the table gives to
this class. An anonymous class is filed under its number in its container, and is that type only if the two names are
the same.
-/
namespace Famix

open Java (AnonymousClass TypeRef MethodDecl InitializerDecl Fragment FieldDecl TypeIndex Project methodSignature)

theorem Repository.mem_idsWhere {store : Array α} {p : α → Bool} {id : ElementId kind} {a : α}
    (known : store[id.index]? = some a) : id ∈ idsWhere store p ↔ p a := by
  obtain ⟨there, -⟩ := Array.getElem?_eq_some_iff.mp known
  constructor
  · intro mem
    obtain ⟨i, chosen, rfl⟩ := List.mem_map.mp mem
    have holds := (List.mem_filter.mp chosen).2
    rw [known] at holds
    exact holds
  · intro holds
    refine List.mem_map.mpr ⟨id.index, List.mem_filter.mpr ⟨List.mem_range.mpr there, ?_⟩, rfl⟩
    rw [known]
    exact holds

namespace FieldQuery

/-- The class that declares the field, where its binding says so. -/
def declaringClass? : FieldQuery → Option TypeIndex
  | .bound b => b.declaringClass
  | .written .. => none

/-- The type that the field goes to: the one of which a field is filed under its key already, or else its owner. -/
def parent (ctx : Context) (query : FieldQuery) (d : Draft) : TypeId :=
  let (owner, e) := query.owner ctx d
  (e.fieldHolder? (query.key ctx (e.repository.typeName owner))).getD owner

variable {ctx : Context} {d : Draft} {query : FieldQuery}

theorem owner_open (free : query.declaringClass? = none) {owner : TypeId} (owned : d.ownerType = some owner) :
    query.owner ctx d = (owner, d) := by
  have here := Draft.ownerOrUnknown_of_some owned
  cases query with
  | written fragment field => exact here
  | bound b =>
    have free : b.declaringClass = none := free
    rw [FieldQuery.owner, free]
    exact here

theorem owner_declared {i : TypeIndex} (declared : query.declaringClass? = some i) :
    query.owner ctx = Draft.typeOfBinding ctx i := by
  cases query with
  | written fragment field => cases declared
  | bound b =>
    have declared : b.declaringClass = some i := declared
    rw [FieldQuery.owner, declared]
    rfl

theorem spares_type (query : FieldQuery) : Draft.SparesMembers (query.type ctx) := by
  cases query with
  | bound b => exact Draft.spares_typeOfBinding? ctx b.type
  | written fragment field => exact Draft.spares_typeOfRef ctx field.type

theorem ask_parent (ctx : Context) (sited : Draft.Sited d) (query : FieldQuery) :
    ∃ x, (query.ask ctx d).2.repository.attribute? (query.ask ctx d).1 = some x ∧
      x.parentType = query.parent ctx d := by
  have sound : Draft.Sound .bare d := ⟨sited, False.elim, False.elim⟩
  have walk := (query.achieves_owner (Promises.bare_keeps ctx) sound).walk
  rw [ask_eq]
  exact Draft.fieldUnder_parent query.spares_type (walk.sound sound).sited.known.attributes

/-- The first field of all goes to the class that its binding names. -/
theorem parent_of_first {i : TypeIndex} (declared : query.declaringClass? = some i)
    (first : d.registry.attributes.entries = []) : query.parent ctx d = (Draft.typeOfBinding ctx i d).1 := by
  have same := (Draft.spares_typeOfBinding ctx i d).attributeKeys
  rw [parent, owner_declared declared]
  generalize Draft.typeOfBinding ctx i d = found at same
  obtain ⟨owner, e⟩ := found
  have free : e.registry.attributes.entries = [] := (congrArg Interner.entries same).trans first
  simp only [Draft.fieldHolder?, Interner.get?, free]
  rfl

end FieldQuery

namespace Draft

theorem registers_bind {x : Drafting (Ensured .type)} {f : Ensured .type → Drafting TypeId} {d : Draft} {key : String}
    (filed : (x d).2.registry.types.get? key = some (x d).1.id)
    (path : ∀ ensured e, Path (fun _ => True) e (f ensured e).2) (same : ∀ ensured e, (f ensured e).1 = ensured.id) :
    ((x >>= f) d).2.registry.types.get? key = some ((x >>= f) d).1 := by
  rw [bind_apply, same]
  exact (path _ _).registry_extends.types _ _ filed

/-- The key of the anonymous class that comes next. -/
def anonymousKey (d : Draft) : String :=
  let (container, e) := anonymousContainer d
  e.repository.childName container (anonymousName (e.repository.typesIn container).length)

theorem typeOfAnonymous_registers (ctx : Context) (a : AnonymousClass) (t : TypeRef) (d : Draft) :
    (typeOfAnonymous ctx a t d).2.registry.types.get? d.anonymousKey = some (typeOfAnonymous ctx a t d).1 := by
  unfold typeOfAnonymous
  rw [bind_apply, get_bind_apply]
  refine registers_bind (internType_registers ..) (fun ensured e => ?_) fun ensured e => ?_
  · cases ensured with
    | existing id => exact .refl
    | created id => exact (Path.single (.typeOpened id) trivial).trans ((builds_inheritRef ctx id t).any.path _)
  · cases ensured <;> rfl

/-- The name and the texts of the parameter types that make up the signature of a declared method. -/
def spelling (ctx : Context) (decl : MethodDecl) : String × List String :=
  match ctx.bindings.resolveMethod decl.binding decl with
  | .resolved _ b => (b.name, b.parameterTypes.map (boundTypeText ctx))
  | .unresolved decl => (decl.name, decl.parameters.map (writtenTypeText ctx ·.type))

/-- The type that a method declared in `owner` goes to. -/
def methodParent (ctx : Context) (d : Draft) (owner : TypeId) (decl : MethodDecl) : TypeId :=
  let (name, texts) := spelling ctx decl
  (d.methodHolder? (d.repository.typeName owner ++ "." ++ methodSignature name texts)).getD owner

theorem introduces_spelled (ctx : Context) (decl : MethodDecl) (owner : TypeId) (d : Draft) :
    Introduces owner (methodSignature (spelling ctx decl).1 (spelling ctx decl).2) (methodWithin ctx decl owner) d := by
  unfold methodWithin spelling
  cases ctx.bindings.resolveMethod decl.binding decl with
  | resolved index b => exact introduces_methodOfResolved ctx b owner d
  | unresolved decl => exact introduces_methodOfUnboundDecl ctx decl owner d

section Parents

variable {ctx : Context} {d : Draft} {owner : TypeId}

theorem methodOfDecl_parent (ctx : Context) (sited : Sited d) (owned : d.ownerType = some owner) (decl : MethodDecl) :
    ∃ x, (methodOfDecl ctx decl d).2.repository.method? (methodOfDecl ctx decl d).1 = some x ∧
      x.parentType = methodParent ctx d owner decl := by
  obtain ⟨x, known, parent⟩ := (introduces_spelled ctx decl owner d).parent sited.known.methods
  rw [methodOfDecl_owned owned]
  obtain ⟨y, kept, -, same⟩ := (Later.change (.methodDeclared _ decl.modifiers) _).keeps.methods _ x known
  exact ⟨y, kept, same.trans parent⟩

theorem initializerMethod_parent (owned : d.ownerType = some owner) (decl : InitializerDecl) :
    ∃ x, (initializerMethod decl d).2.repository.method? (initializerMethod decl d).1 = some x ∧
      x.parentType = owner := by
  unfold initializerMethod
  rw [bind_apply, ownerOrUnknown_of_some owned]
  exact ⟨_, Array.getElem?_push_size, rfl⟩

theorem attributeOfFragment_parent (ctx : Context) (sited : Sited d) (fragment : Fragment) (field : FieldDecl) :
    ∃ x, (attributeOfFragment ctx fragment field d).2.repository.attribute?
        (attributeOfFragment ctx fragment field d).1 = some x ∧
      x.parentType = (FieldQuery.ofFragment ctx fragment field).parent ctx d := by
  obtain ⟨x, known, parent⟩ := (FieldQuery.ofFragment ctx fragment field).ask_parent ctx sited
  obtain ⟨modifiers, made⟩ := attributeOfFragment_ask ctx fragment field d
  obtain ⟨y, kept, -, same⟩ := (Later.change (.attributeDeclared _ modifiers) _).keeps.attributes _ x known
  rw [made]
  exact ⟨y, kept, same.trans parent⟩

/-- A class that is registered is found, and no type is made. -/
theorem typeOfBinding_types {i : TypeIndex} {id : TypeId} (known : resolved? ctx.bindings d i = some id) :
    (typeOfBinding ctx i d).2.repository.types = d.repository.types := by
  unfold resolved? indexKey at known
  cases listed : ctx.bindings.types[i]? with
  | some b =>
    rw [listed] at known
    rw [typeOfBinding_of_run (.inside listed (.known known))]
  | none =>
    rw [listed, ← unknownNamespace_typeKeys] at known
    have found : internType (unknownKey unknownName) unknownName (.ns (unknownNamespace d).1) .unknown
        (unknownNamespace d).2 = (.existing id, (unknownNamespace d).2) := internType_of_some known
    rw [typeOfBinding_of_run (.beyond listed), unknownType_eq]
    exact (congrArg (·.2.repository.types) found).trans (unknownNamespace_types d).1

theorem later_attributeOfFragment (ctx : Context) (fragment : Fragment) (field : FieldDecl) (d : Draft) :
    Later ((FieldQuery.ofFragment ctx fragment field).owner ctx d).2 (attributeOfFragment ctx fragment field d).2 := by
  obtain ⟨modifiers, made⟩ := attributeOfFragment_ask ctx fragment field d
  rw [made]
  exact ((FieldQuery.ofFragment ctx fragment field).later_ask d).trans (.change (.attributeDeclared _ modifiers) _)

/-- The class that a binding names is the one that is open exactly if it has the key of that one. Then no type is made
for it. -/
theorem typeOfBinding_open (ctx : Context) (sited : Sited d) (agree : d.registry.Matches d.repository)
    (owned : d.ownerType = some owner) {key : String} (filed : d.registry.types.get? key = some owner) (i : TypeIndex) :
    ((typeOfBinding ctx i d).1 = owner ↔ indexKey ctx.bindings i = key) ∧
      ((typeOfBinding ctx i d).1 = owner → (typeOfBinding ctx i d).2.repository.types = d.repository.types) := by
  have resolves : (typeOfBinding ctx i d).1 = owner → resolved? ctx.bindings d i = some owner := by
    rintro rfl
    exact owner_resolved ⟨sited, False.elim, False.elim⟩ agree owned
  refine ⟨⟨fun same => ?_, fun same => ?_⟩, fun same => typeOfBinding_types (resolves same)⟩
  · exact (agree.types.eq_iff (resolves same) filed).mp rfl
  · exact typeOfBinding_resolved (by rw [resolved?, same, filed])

end Parents

end Draft

namespace Place

variable {ctx : Context} {p q : Place} {a : AnonymousClass} {t : TypeRef}

theorem current_body (inside : p.enclosing.head? = some q) (opens : q.mark = .anonymous a t) :
    (p.draft ctx).scope.current = some (.type (Draft.typeOfAnonymous ctx a t (q.draft ctx)).1) := by
  rw [current_draft, inside, Option.bind_some, opened, opens]
  rfl

theorem ownerType_body (inside : p.enclosing.head? = some q) (opens : q.mark = .anonymous a t) :
    (p.draft ctx).ownerType = some (Draft.typeOfAnonymous ctx a t (q.draft ctx)).1 := by
  rw [Draft.ownerType, current_body inside opens]

theorem registered_body (inside : p.enclosing.head? = some q) (opens : q.mark = .anonymous a t) :
    (p.draft ctx).registry.types.get? (q.draft ctx).anonymousKey =
      some (Draft.typeOfAnonymous ctx a t (q.draft ctx)).1 := by
  obtain ⟨rest, split⟩ := Mark.mem_unclosed (List.mem_of_head? inside)
  rw [draft, split, Mark.actAll_append, Mark.actAll_cons, opens]
  exact (Mark.later_actAll ctx rest _).registry.types _ _ (Draft.typeOfAnonymous_registers ctx a t (q.draft ctx))

end Place

namespace Draft

theorem Later.rescope {d e : Draft} (h : Later d e) (scope : Scope) : Later d { e with scope } :=
  { h with registry := h.registry }

theorem Later.mem_methodsOf {d e : Draft} (later : Later d e) (mirrored : e.repository.Mirrored) {id : MethodId}
    {x : MethodEntity} (known : d.repository.method? id = some x) (owner : TypeId) :
    id ∈ e.repository.methodsOf owner ↔ owner = x.parentType := by
  obtain ⟨y, kept, -, same⟩ := later.keeps.methods _ x known
  rw [mirrored.posted.methodsOf, Repository.mem_idsWhere kept, decide_eq_true_iff, same, eq_comm]

theorem Later.mem_attributesOf {d e : Draft} (later : Later d e) (mirrored : e.repository.Mirrored) {id : AttributeId}
    {x : AttributeEntity} (known : d.repository.attribute? id = some x) (owner : TypeId) :
    id ∈ e.repository.attributesOf owner ↔ owner = x.parentType := by
  obtain ⟨y, kept, -, same⟩ := later.keeps.attributes _ x known
  rw [mirrored.posted.attributesOf, Repository.mem_idsWhere kept, decide_eq_true_iff, same, eq_comm]

end Draft

theorem Mark.mirrored_actAll (ctx : Context) (marks : List Mark) : (actAll ctx marks {}).repository.Mirrored :=
  (actAll_invariant ctx.keeps_links (fun c _ _ _ h => Repository.Mirrored.change h c) marks (fun m _ => m.fits_links)
    (Operation.sound_empty .links) .empty).2

namespace Place

variable (ctx : Context) {p : Place} {marks : List Mark} (read : p ∈ Mark.places marks)
include read

theorem later_actAll {e : Draft} (later : Draft.Later e (p.mark.act ctx (p.draft ctx))) :
    Draft.Later e (Mark.actAll ctx marks {}) := by
  obtain ⟨rest, rfl⟩ := Mark.mem_places read
  rw [Mark.actAll_append, Mark.actAll_cons]
  exact later.trans (Mark.later_actAll ctx rest _)

theorem later_field {fragment : Fragment} {field : FieldDecl} (declares : p.mark = .field fragment field) :
    Draft.Later (Draft.attributeOfFragment ctx fragment field (p.draft ctx)).2 (Mark.actAll ctx marks {}) := by
  refine later_actAll ctx read ?_
  rw [declares]
  exact (Draft.Later.refl _).rescope _

/-! The types that the members of a body belong to in the end. -/

theorem method_parent {decl : MethodDecl} (declares : p.mark = .method decl) {owner : TypeId}
    (owned : (p.draft ctx).ownerType = some owner) (other : TypeId) :
    (Draft.methodOfDecl ctx decl (p.draft ctx)).1 ∈ (Mark.actAll ctx marks {}).repository.methodsOf other ↔
      other = Draft.methodParent ctx (p.draft ctx) owner decl := by
  have acted : Draft.Later (Draft.methodOfDecl ctx decl (p.draft ctx)).2 (p.mark.act ctx (p.draft ctx)) := by
    rw [declares]
    exact (Draft.Later.path ((Draft.builds_declareParameters ctx _ decl.parameters).path _)).rescope _
  have sited : Draft.Sited (p.draft ctx) := (Mark.sound_actAll ctx p.before).sited
  obtain ⟨x, known, parent⟩ := Draft.methodOfDecl_parent ctx sited owned decl
  rw [← parent]
  exact (later_actAll ctx read acted).mem_methodsOf (Mark.mirrored_actAll ctx marks) known other

theorem initializer_parent {decl : InitializerDecl} (declares : p.mark = .initializer decl) {owner : TypeId}
    (owned : (p.draft ctx).ownerType = some owner) (other : TypeId) :
    (Draft.initializerMethod decl (p.draft ctx)).1 ∈ (Mark.actAll ctx marks {}).repository.methodsOf other ↔
      other = owner := by
  have acted : Draft.Later (Draft.initializerMethod decl (p.draft ctx)).2 (p.mark.act ctx (p.draft ctx)) := by
    rw [declares]
    exact (Draft.Later.refl _).rescope _
  obtain ⟨x, known, parent⟩ := Draft.initializerMethod_parent owned decl
  rw [← parent]
  exact (later_actAll ctx read acted).mem_methodsOf (Mark.mirrored_actAll ctx marks) known other

theorem field_parent {fragment : Fragment} {field : FieldDecl} (declares : p.mark = .field fragment field)
    (other : TypeId) : (Draft.attributeOfFragment ctx fragment field (p.draft ctx)).1 ∈
        (Mark.actAll ctx marks {}).repository.attributesOf other ↔
      other = (FieldQuery.ofFragment ctx fragment field).parent ctx (p.draft ctx) := by
  have sited : Draft.Sited (p.draft ctx) := (Mark.sound_actAll ctx p.before).sited
  obtain ⟨x, known, parent⟩ := Draft.attributeOfFragment_parent ctx sited fragment field
  rw [← parent]
  exact (later_field ctx read declares).mem_attributesOf (Mark.mirrored_actAll ctx marks) known other

end Place

theorem Mark.sound_named {ctx : Context} (kept : ctx.Keeps .names) {marks : List Mark}
    (fits : ∀ m ∈ marks, m.Fits .names) : Draft.Sound .names (actAll ctx marks {}) :=
  (actAll_invariant (P := fun _ => True) kept (fun _ _ _ _ => id) marks fits (Operation.sound_empty .names) trivial).1

theorem Repository.PlainNames.of_keeps {r s : Repository} (plain : s.PlainNames) (rooted : r.Rooted)
    (keeps : r.Keeps s) : r.PlainNames where
  types id there := by
    rw [← rooted.typeName_keep keeps there]
    exact plain.types id (keeps.holds there)
  methods id m known := by
    obtain ⟨x, kept, same, -⟩ := keeps.methods _ m known
    rw [← same]
    exact plain.methods id x kept
  attributes id a known := by
    obtain ⟨x, kept, same, -⟩ := keeps.attributes _ a known
    rw [← same]
    exact plain.attributes id x kept

namespace Draft

variable {ctx : Context} {d : Draft} {type : TypeId}

/-- Where names are plain, a method goes to the class that it is declared in. -/
theorem methodParent_of_plain (sound : Sound .names d) (agree : d.registry.Matches d.repository)
    (plain : d.repository.PlainNames) (there : Present type d) {decl : MethodDecl}
    (dotless : '.' ∉ (spelling ctx decl).1.toList) (open_ : '(' ∉ (spelling ctx decl).1.toList) :
    methodParent ctx d type decl = type := by
  have free := not_methodTaken sound agree plain there dotless open_ (spelling ctx decl).2
  rw [methodTaken_iff, not_not] at free
  exact free

/-- Where names are plain and fields are keyed, a field goes to its owner. -/
theorem parent_of_plain (kept : ctx.Keeps .names) (sound : Sound .names d) (agree : d.registry.Matches d.repository)
    {query : FieldQuery} (plain : (query.owner ctx d).2.repository.PlainNames) (dotless : '.' ∉ query.name.toList) :
    query.parent ctx d = (query.owner ctx d).1 := by
  obtain ⟨walk, there⟩ := query.achieves_owner kept sound
  have keyed : query.keying ctx = .keyed := by
    cases query with
    | bound b => rfl
    | written fragment field => exact (kept trivial).2
  have agreed := walk.invariant (P := fun e => e.registry.Matches e.repository) sound agree fun c _ _ _ h => h.change c
  have free := not_fieldTaken (walk.sound sound) agreed plain there dotless
  rw [fieldTaken_iff, not_not] at free
  unfold FieldQuery.parent FieldQuery.key
  rw [keyed]
  exact free

/-- A field whose binding names a class that is found as it is goes under the key of the field there. -/
theorem attributeOfFragment_home {ctx : Context} {b : Java.VariableBinding} {i : TypeIndex} {owner : TypeId}
    {fragment : Fragment} (field : FieldDecl) (bound : fieldBinding? ctx fragment = some b)
    (declared : b.declaringClass = some i) (home : typeOfBinding ctx i d = (owner, d)) :
    attributeOfFragment ctx fragment field d =
      let key := d.repository.typeName owner ++ "." ++ b.name
      let (id, e) := fieldUnder key b.name owner (typeOfBinding? ctx b.type) d
      (id, (Change.attributeDeclared id b.modifiers).apply e) := by
  have asked : attributeOfBinding ctx b d = _ := attributeOfBinding_declared declared d
  rw [home] at asked
  dsimp only at asked ⊢
  rw [← asked]
  unfold attributeOfFragment
  rw [bound]
  rfl

end Draft

/-- The members of an anonymous class. What stands directly in its body is visited with its type open. The methods that
are declared there go to this type, unless one of another type is filed under their key already, and the initializers
always do. So do the fields, if the type is their owner. It is if their binding names no declaring class. If it names
one, the type is their owner exactly if the class has in the table the key that the anonymous class has by its number,
and only then no other type is needed. Where names are consistent and plain and fields are keyed, no key is taken. -/
theorem anonymous_members (project : Project) (keying : AttributeKeying) (p q : Place) (a : AnonymousClass)
    (t : TypeRef) (read : p ∈ Mark.places (readUnits project.units)) (inside : p.enclosing.head? = some q)
    (opens : q.mark = .anonymous a t) :
    let ctx : Context := { bindings := project.bindings, keying }
    let model := buildModel project keying
    let d := p.draft ctx
    let type := (Draft.typeOfAnonymous ctx a t (q.draft ctx)).1
    let plain := NamesConsistent project.bindings ∧ keying = .keyed ∧ (∀ m ∈ readUnits project.units, m.Fits .names) ∧
      model.PlainNames
    d.scope.current = some (.type type) ∧
      (∀ decl, p.mark = .method decl →
        let name := (Draft.spelling ctx decl).1
        let id := (Draft.methodOfDecl ctx decl d).1
        (∀ owner, id ∈ model.methodsOf owner ↔ owner = Draft.methodParent ctx d type decl) ∧
          (plain → '.' ∉ name.toList → '(' ∉ name.toList → id ∈ model.methodsOf type)) ∧
      (∀ decl, p.mark = .initializer decl →
        ∀ owner, (Draft.initializerMethod decl d).1 ∈ model.methodsOf owner ↔ owner = type) ∧
      ∀ fragment field, p.mark = .field fragment field →
        let asked := FieldQuery.ofFragment ctx fragment field
        let id := (Draft.attributeOfFragment ctx fragment field d).1
        (∀ owner, id ∈ model.attributesOf owner ↔ owner = asked.parent ctx d) ∧
          (asked.declaringClass? = none → asked.owner ctx d = (type, d)) ∧
          (∀ i, asked.declaringClass? = some i →
            ((asked.owner ctx d).1 = type ↔ Draft.indexKey project.bindings i = (q.draft ctx).anonymousKey) ∧
              ((asked.owner ctx d).1 = type → (asked.owner ctx d).2.repository.types = d.repository.types)) ∧
          (plain → '.' ∉ asked.name.toList → (id ∈ model.attributesOf type ↔ (asked.owner ctx d).1 = type)) := by
  intro ctx model d type plain
  have sound : Draft.Sound .links d := Mark.sound_actAll ctx p.before
  have agree : d.registry.Matches d.repository := Mark.actAll_agree ctx p.before .empty
  have owned : d.ownerType = some type := Place.ownerType_body inside opens
  have reads : model = (Mark.actAll ctx (readUnits project.units) {}).repository := buildModel_reads ..
  have named : plain → Draft.Sound .names d := by
    rintro ⟨consistent, keyed, fits, -⟩
    obtain ⟨rest, split⟩ := Mark.mem_places read
    rw [split] at fits
    exact Mark.sound_named (fun _ => ⟨consistent, keyed⟩) (List.forall_mem_append.mp fits).1
  rw [reads]
  refine ⟨Place.current_body inside opens, fun decl declares => ?_,
    fun decl declares => Place.initializer_parent ctx read declares owned, fun fragment field declares => ?_⟩
  · intro name id
    have member := Place.method_parent ctx read declares owned
    refine ⟨member, fun given dotless open_ => (member type).mpr ?_⟩
    have since := Place.later_actAll ctx read (Mark.later_actAll ctx [p.mark] d)
    have plain : d.repository.PlainNames := (reads ▸ given.2.2.2).of_keeps sound.sited.rooted since.keeps
    exact (Draft.methodParent_of_plain (named given) agree plain (sound.sited.ownerType_holds owned) dotless open_).symm
  · intro asked id
    have member := Place.field_parent ctx read declares
    refine ⟨member, fun free => FieldQuery.owner_open free owned, fun i declared => ?_, fun given dotless => ?_⟩
    · rw [FieldQuery.owner_declared declared]
      exact Draft.typeOfBinding_open ctx sound.sited agree owned (Place.registered_body inside opens) i
    · have after : Draft.Sound .links (asked.owner ctx d).2 :=
        (asked.achieves_owner ctx.keeps_links sound).walk.sound sound
      have since := (Draft.later_attributeOfFragment ctx fragment field d).trans (Place.later_field ctx read declares)
      have plain := (reads ▸ given.2.2.2).of_keeps after.sited.rooted since.keeps
      rw [member, Draft.parent_of_plain (fun _ => ⟨given.1, given.2.1⟩) (named given) agree plain dotless, eq_comm]

/-- The class whose binding a type is declared with. -/
def Mark.binding? : Mark → Option TypeIndex
  | .type decl => decl.binding
  | .anonymous a _ => a.binding
  | _ => none

def Mark.declaringClass? (table : Java.BindingTable) : Mark → Option TypeIndex
  | .field fragment decl => (FieldQuery.ofFragment { bindings := table } fragment decl).declaringClass?
  | _ => none

/-- A field whose binding names a class stands in the body of this class. -/
def Place.AtHome (table : Java.BindingTable) (p : Place) : Prop :=
  ∀ i ∈ p.mark.declaringClass? table, p.enclosing.head?.bind (·.mark.binding?) = some i

instance (table : Java.BindingTable) (p : Place) : Decidable (p.AtHome table) :=
  inferInstanceAs (Decidable (∀ i ∈ p.mark.declaringClass? table, _ = some i))

namespace Worker

def task : TypeRef := { written := .simple "Task" }

def anonymous (body : List Java.Member) : AnonymousClass := ⟨some 0, body⟩

def start (body : List Java.Member) : MethodDecl where
  name := "start"
  binding := none
  isConstructor := false
  returnType := none
  parameters := []
  modifiers := []
  body := [.expression (.creation task [] none (some (anonymous body)))]

def run : MethodDecl := { start [] with name := "run", body := [] }

def decl (body : List Java.Member) : Java.TypeDecl where
  name := "Worker"
  kind := .classType
  binding := none
  modifiers := []
  superclass := none
  interfaces := []
  body := [.method (start body)]

def project (table : Java.BindingTable) (body : List Java.Member) : Project where
  bindings := table
  units := [{ package := some "app", types := [decl body] }]

/-- The anonymous class is known under another name than the one that it has by its number. -/
def renamed : Java.BindingTable where
  types := [.inPackage "app" "Worker$1"]
  vars := [{ name := "f", kind := .field, declaringClass := some 0 }]

/-- The anonymous class is known by its number. -/
def numbered : Java.BindingTable where
  types := [{ qualifiedName := "app.Worker.$0", name := "$0", package := some "app", declaringClass := some 1 },
    .inPackage "app" "Worker"]
  vars := [{ name := "g", kind := .field, declaringClass := some 0 }]

theorem numbered_consistent : NamesConsistent numbered := by decide +kernel

def field (name : String) (binding : Option Java.VariableIndex) : FieldDecl :=
  ⟨{ written := .simple "X" }, [], [⟨name, binding, none⟩]⟩

/-- A method, an initializer, a field that has no binding and one whose binding names the class. -/
def members : List Java.Member :=
  [.method run, .initializer ⟨false, []⟩, .field (field "f" none), .field (field "g" (some 0))]

abbrev marks : List Mark := readUnits (project numbered members).units

abbrev context : Context := { bindings := numbered }

/-- The draft in which the bound field is declared. -/
def unfinished : Draft := Mark.actAll context (marks.take 10) {}

theorem typeOfBinding_unfinished : Draft.typeOfBinding context 0 unfinished = (⟨2⟩, unfinished) :=
  Draft.typeOfBinding_of_run (.inside rfl (.known (by decide +kernel)))

/-- The draft after the bound field, found under its key. -/
def finished : Draft :=
  let (id, e) := Draft.fieldUnder "app.Worker.$0.g" "g" ⟨2⟩ (Draft.typeOfBinding? context none) unfinished
  (Change.attributeDeclared id []).apply e

-- the binding is resolved by a recursion over the table that is not evaluated, so its result is put in its place
theorem actAll_finished : Mark.actAll context marks {} = Mark.actAll context (marks.drop 11) finished := by
  have split : marks = marks.take 10 ++ .field ⟨"g", some 0, none⟩ (field "g" (some 0)) :: marks.drop 11 := rfl
  have key : unfinished.repository.typeName ⟨2⟩ = "app.Worker.$0" := by decide +kernel
  have made : Draft.attributeOfFragment context ⟨"g", some 0, none⟩ (field "g" (some 0)) unfinished = _ :=
    Draft.attributeOfFragment_home _ rfl rfl typeOfBinding_unfinished
  rw [key] at made
  rw [split, Mark.actAll_append, Mark.actAll_cons]
  congr 1
  change (Draft.attributeOfFragment context ⟨"g", some 0, none⟩ (field "g" (some 0)) unfinished).2 = finished
  rw [made]
  rfl

theorem plain : (buildModel (project numbered members) .keyed).PlainNames := by
  have last : buildModel (project numbered members) .keyed = _ :=
    (buildModel_reads ..).trans (congrArg Draft.repository actAll_finished)
  rw [last]
  decide +kernel

end Worker

theorem anonymous_members_worker :
    let project := Worker.project Worker.numbered Worker.members
    let ctx : Context := { bindings := project.bindings }
    let model := buildModel project .keyed
    let before (i : Nat) (m : Mark) : Place := ⟨(readUnits project.units).take i, m⟩
    let body := before 4 (.anonymous (Worker.anonymous Worker.members) Worker.task)
    let method := before 5 (.method Worker.run)
    let initializer := before 7 (.initializer ⟨false, []⟩)
    let unbound := before 9 (.field ⟨"f", none, none⟩ (Worker.field "f" none))
    let bound := before 10 (.field ⟨"g", some 0, none⟩ (Worker.field "g" (some 0)))
    let type := (Draft.typeOfAnonymous ctx (Worker.anonymous Worker.members) Worker.task (body.draft ctx)).1
    type = ⟨2⟩ ∧ NamesConsistent project.bindings ∧ model.PlainNames ∧
      (∀ p ∈ [method, initializer, unbound, bound],
        p ∈ Mark.places (readUnits project.units) ∧ p.enclosing.head? = some body) ∧
      (Draft.methodOfDecl ctx Worker.run (method.draft ctx)).1 ∈ model.methodsOf type ∧
      (Draft.initializerMethod ⟨false, []⟩ (initializer.draft ctx)).1 ∈ model.methodsOf type ∧
      (Draft.attributeOfFragment ctx ⟨"f", none, none⟩ (Worker.field "f" none) (unbound.draft ctx)).1 ∈
        model.attributesOf type ∧
      (Draft.attributeOfFragment ctx ⟨"g", some 0, none⟩ (Worker.field "g" (some 0)) (bound.draft ctx)).1 ∈
        model.attributesOf type := by
  intro project ctx model before body method initializer unbound bound type
  have first : method ∈ Mark.places (readUnits project.units) := List.mem_of_getElem? (i := 5) rfl
  have second : initializer ∈ Mark.places (readUnits project.units) := List.mem_of_getElem? (i := 7) rfl
  have third : unbound ∈ Mark.places (readUnits project.units) := List.mem_of_getElem? (i := 9) rfl
  have fourth : bound ∈ Mark.places (readUnits project.units) := List.mem_of_getElem? (i := 10) rfl
  have read : ∀ p ∈ [method, initializer, unbound, bound],
      p ∈ Mark.places (readUnits project.units) ∧ p.enclosing.head? = some body := by
    simp only [List.forall_mem_cons]
    exact ⟨⟨first, rfl⟩, ⟨second, rfl⟩, ⟨third, rfl⟩, ⟨fourth, rfl⟩, List.forall_mem_nil _⟩
  have fits : ∀ m ∈ readUnits project.units, m.Fits .names := by decide +kernel
  have plain := And.intro Worker.numbered_consistent (And.intro (Eq.refl AttributeKeying.keyed)
    (And.intro fits Worker.plain))
  refine ⟨by decide +kernel, Worker.numbered_consistent, Worker.plain, read, ?_, ?_, ?_, ?_⟩
  · obtain ⟨-, methods, -⟩ := anonymous_members project .keyed method body _ _ first rfl rfl
    exact (methods _ rfl).2 plain (by decide) (by decide)
  · obtain ⟨-, -, initializers, -⟩ := anonymous_members project .keyed initializer body _ _ second rfl rfl
    exact (initializers _ rfl type).mpr rfl
  · obtain ⟨-, -, -, fields⟩ := anonymous_members project .keyed unbound body _ _ third rfl rfl
    obtain ⟨-, opened, -, own⟩ := fields _ _ rfl
    exact (own plain (by decide)).mpr (by rw [opened rfl])
  · obtain ⟨-, -, -, fields⟩ := anonymous_members project .keyed bound body _ _ fourth rfl rfl
    obtain ⟨-, -, named, own⟩ := fields _ _ rfl
    have key : Draft.indexKey project.bindings 0 = (body.draft ctx).anonymousKey := by decide +kernel
    exact (own plain (by decide)).mpr ((named 0 rfl).1.mpr key)

/-- A field of an anonymous class that goes to another type, although its binding names the class whose body it stands
in. -/
theorem anonymous_field_astray :
    let members : List Java.Member := [.field (Worker.field "f" (some 0))]
    let project := Worker.project Worker.renamed members
    let ctx : Context := { bindings := project.bindings }
    let q : Place := ⟨(readUnits project.units).take 4, .anonymous (Worker.anonymous members) Worker.task⟩
    let p : Place := ⟨(readUnits project.units).take 5, .field ⟨"f", some 0, none⟩ (Worker.field "f" (some 0))⟩
    let type := (Draft.typeOfAnonymous ctx (Worker.anonymous members) Worker.task (q.draft ctx)).1
    (∀ p ∈ Mark.places (readUnits project.units), p.AtHome project.bindings) ∧
      p ∈ Mark.places (readUnits project.units) ∧ p.enclosing.head? = some q ∧
      (Draft.attributeOfFragment ctx ⟨"f", some 0, none⟩ (Worker.field "f" (some 0)) (p.draft ctx)).1 ∉
        (buildModel project .keyed).attributesOf type := by
  intro members project ctx q p type
  have read : p ∈ Mark.places (readUnits project.units) := List.mem_of_getElem? (i := 5) rfl
  have inside : p.enclosing.head? = some q := rfl
  refine ⟨by decide +kernel, read, inside, fun own => ?_⟩
  rw [buildModel_reads] at own
  have same := (Place.field_parent ctx read rfl type).mp own
  have first : (p.draft ctx).registry.attributes.entries = [] := by decide +kernel
  rw [FieldQuery.parent_of_first (i := 0) rfl first] at same
  have sited : Draft.Sited (p.draft ctx) := (Mark.sound_actAll ctx p.before).sited
  have agree : (p.draft ctx).registry.Matches (p.draft ctx).repository := Mark.actAll_agree ctx p.before .empty
  have opened := Draft.typeOfBinding_open ctx sited agree (Place.ownerType_body inside rfl)
    (Place.registered_body inside rfl) 0
  exact absurd (opened.1.mp same.symm) (by decide +kernel)

end Famix
