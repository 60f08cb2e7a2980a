import Famix.Proofs.Catalogue
import Famix.Proofs.Declaration

/-!
Types that are known by a name without a package. Such a name is written in a reference, bound in the table or declared
outside any container, and each of these makes the key of the type in its own way: with the name of the unknown
namespace in front, from the binding, or from the namespace that is found or made. All of them lead to one type. What
has no name at all goes by that of the unknown type.
-/
namespace Famix

open Java (TypeIndex TypeExpr TypeRef TypeBinding TypeDecl)

/-- Whether a type as written goes by a name. What has none goes by that of the unknown type. -/
def Java.TypeExpr.GoesBy (name : String) : TypeExpr → Prop
  | .simple own => own = name
  | .parameterized base _ => base.text = name
  | .primitive _ | .array .. | .wildcard .. => name = unknownName

/-- Whether a node has no binding, or one that is beyond the end of the table. -/
def Context.Unbound (ctx : Context) (i : Option TypeIndex) : Prop := ∀ j, i = some j → ctx.bindings.types[j]? = none

theorem Context.Unbound.resolveType {ctx : Context} {i : Option TypeIndex} (h : ctx.Unbound i) (hint : β) :
    ctx.bindings.resolveType i hint = .unresolved hint := Draft.resolveType_unbound h hint

namespace Draft

/-- The step gives the type under a key. If there is none it is the next type, which is then filed under the key; if
there is one no type is made. -/
structure GivesType (key : String) (f : Drafting TypeId) (d : Draft) : Prop where
  registers : (f d).2.registry.types.get? key = some (f d).1
  known : ∀ id, d.registry.types.get? key = some id →
    (f d).1 = id ∧ (f d).2.repository.types.size = d.repository.types.size
  made : d.registry.types.get? key = none → (f d).1 = ⟨d.repository.types.size⟩

/-- Steps that look under one key give the same type. -/
theorem GivesType.agree {key : String} {f g : Drafting TypeId} {d : Draft} (hf : GivesType key f d)
    (hg : GivesType key g d) : (g d).1 = (f d).1 := by
  cases looked : d.registry.types.get? key with
  | some id => rw [(hf.known id looked).1, (hg.known id looked).1]
  | none => rw [hf.made looked, hg.made looked]

/-- What one step has found or made, another finds at any later time. -/
theorem GivesType.later {key : String} {f g : Drafting TypeId} {d e : Draft} (hf : GivesType key f d)
    (later : Later (f d).2 e) (hg : GivesType key g e) :
    (g e).1 = (f d).1 ∧ (g e).2.repository.types.size = e.repository.types.size :=
  hg.known _ (later.registry.types _ _ hf.registers)

theorem gives_unknownTypeNamed (name : String) (d : Draft) : GivesType (unknownKey name) (unknownTypeNamed name) d := by
  have size := unknownNamespace_size d
  have keys := unknownNamespace_typeKeys d
  have run : unknownTypeNamed name d =
      ((internType (unknownKey name) name (.ns (unknownNamespace d).1) .unknown (unknownNamespace d).2).1.id,
        (internType (unknownKey name) name (.ns (unknownNamespace d).1) .unknown (unknownNamespace d).2).2) := rfl
  refine ⟨unknownTypeNamed_registers name d, fun id known => ?_, fun fresh => ?_⟩
  · rw [run, internType_of_some (d := (unknownNamespace d).2) (keys ▸ known)]
    exact ⟨rfl, size⟩
  · rw [run, internType_of_none (d := (unknownNamespace d).2) (keys ▸ fresh)]
    exact congrArg ElementId.mk size

theorem gives_unknownType (d : Draft) : GivesType (unknownKey unknownName) unknownType d := by
  have gives := gives_unknownTypeNamed unknownName d
  refine ⟨unknownType_registers d, fun id known => ?_, fun fresh => ?_⟩
  · rw [unknownType_eq]
    exact gives.known id known
  · rw [unknownType_eq]
    exact gives.made fresh

section Ways

variable {ctx : Context} {name : String} {d : Draft}

theorem gives_typeOfExpr {t : TypeExpr} (goes : t.GoesBy name) : GivesType (unknownKey name) (typeOfExpr t) d := by
  cases t with
  | simple own =>
    obtain rfl : own = name := goes
    exact gives_unknownTypeNamed own d
  | parameterized base arguments =>
    obtain rfl : base.text = name := goes
    exact gives_unknownTypeNamed base.text d
  | primitive | array | wildcard =>
    obtain rfl : name = unknownName := goes
    exact gives_unknownType d

theorem gives_typeOfRef {t : TypeRef} (unbound : ctx.Unbound t.binding) (goes : t.written.GoesBy name) :
    GivesType (unknownKey name) (typeOfRef ctx t) d := by
  unfold typeOfRef
  rw [unbound.resolveType]
  exact gives_typeOfExpr goes

/-- Outside any class, nothing is made before the type itself. -/
theorem Resolves.made_next {table : Java.BindingTable} {b : TypeBinding} {id : TypeId} {d e : Draft}
    (run : Resolves table (.binding b) d (.type id) e) (free : enclosing? table b = none)
    (fresh : d.registry.types.get? (typeKey table b) = none) : id = ⟨d.repository.types.size⟩ := by
  cases run with
  | known known =>
    rw [fresh] at known
    cases known
  | met _ place met =>
    cases place with
    | enclosed _ found =>
      rw [free] at found
      cases found
    | free =>
      rw [ensureNamespace_types, fresh] at met
      cases met
  | made _ place =>
    cases place with
    | enclosed _ found =>
      rw [free] at found
      cases found
    | free => exact congrArg ElementId.mk (ensureNamespace_size _ d)

theorem gives_typeOfBinding {i : TypeIndex} {b : TypeBinding} (listed : ctx.bindings.types[i]? = some b)
    (free : enclosing? ctx.bindings b = none) :
    GivesType (typeKey ctx.bindings b) (typeOfBinding ctx i) d := by
  refine ⟨?_, fun id known => ?_, (typeOfBinding_runs listed d).made_next free⟩
  · have registered : resolved? ctx.bindings _ i = _ := (resolveIndex_runs ctx.bindings i d).registers
    rw [resolved?, indexKey, listed] at registered
    exact registered
  · have run := typeOfBinding_of_run (.inside listed (.known known))
    exact ⟨congrArg (·.1) run, congrArg (·.2.repository.types.size) run⟩

/-- Outside any container the unknown namespace is the container, and it is what its key says. -/
theorem containerOrUnknown_outside (outside : d.scope.frames = []) :
    containerOrUnknown d = (.ns (unknownNamespace d).1, (unknownNamespace d).2) := by
  unfold containerOrUnknown
  rw [get_bind_apply, show d.scope.current = none from congrArg List.head? outside]
  rfl

theorem gives_typeOfDecl {decl : TypeDecl} (agree : d.registry.Matches d.repository)
    (spaces : d.registry.namespaces.Names d.repository.namespaceName) (unbound : ctx.Unbound decl.binding)
    (outside : d.scope.frames = []) : GivesType (unknownKey decl.name) (typeOfDecl ctx decl) d := by
  let space := (unknownNamespace d).1
  let e := (unknownNamespace d).2
  have size : e.repository.types.size = d.repository.types.size := unknownNamespace_size d
  have keys : e.registry.types = d.registry.types := unknownNamespace_typeKeys d
  have named : (unknownNamespace d).2.repository.namespaceName (unknownNamespace d).1 = unknownName := by
    rw [unknownNamespace_eq]
    exact (Change.space unknownName).namespaces_named agree spaces _ _ (ensureNamespace_registers unknownName d)
  have key : e.repository.childName (.ns space) decl.name = unknownKey decl.name := by
    rw [unknownKey, ← joinName_of_ne (by decide), ← named]
    rfl
  have run : typeOfUnboundDecl ctx decl d = declaredUnder ctx decl (unknownKey decl.name) (.ns space) e := by
    rw [typeOfUnboundDecl_eq, containerOrUnknown_outside outside, ← key]
  have whole := typeOfDecl_unbound ctx decl unbound d
  rw [run] at whole
  cases looked : e.registry.types.get? (unknownKey decl.name) with
  | some id =>
    rw [declaredUnder_of_some ctx decl looked] at whole
    refine ⟨?_, fun other known => ?_, fun fresh => ?_⟩
    · rw [whole]
      exact looked
    · rw [whole]
      exact ⟨Option.some.inj (looked.symm.trans (keys ▸ known)), Array.size_modify.trans size⟩
    · rw [keys, fresh] at looked
      cases looked
  | none =>
    rw [declaredUnder_of_none ctx decl looked] at whole
    refine ⟨?_, fun other known => ?_, fun _ => ?_⟩
    · rw [whole]
      have inherits := (builds_inheritRefs ctx ⟨e.repository.types.size⟩ (decl.superclass.toList ++
        decl.interfaces)).path (e.addType (unknownKey decl.name) decl.name (.ns space) (declaredKind decl.kind)
        looked)
      exact inherits.registry_extends.types _ _ (by simp [addType])
    · rw [keys, known] at looked
      cases looked
    · rw [whole]
      exact congrArg ElementId.mk size

end Ways

end Draft

namespace Operation

open Draft (GivesType)

/-- Whether an operation asks for a type by a name that has no package. A bound type has no package and is not enclosed
in its declaring class, or it is beyond the end of the table and has no name; a declaration is made outside any
container. -/
def AsksFor (ctx : Context) (name : String) (d : Draft) : Operation → Prop
  | .unknownType => name = unknownName
  | .typeOfExpr t => t.GoesBy name
  | .typeOfRef t => ctx.Unbound t.binding ∧ t.written.GoesBy name
  | .typeOfBinding i => ctx.bindings.types[i]? = none ∧ name = unknownName ∨
      ∃ b, ctx.bindings.types[i]? = some b ∧ b.package = none ∧ b.qualifiedName = name ∧
        ∀ outer, ¬ MemberOf ctx.bindings b outer
  | .typeOfDecl decl => ctx.Unbound decl.binding ∧ decl.name = name ∧ d.scope.frames = []
  | _ => False

/-- However the name is asked for, the type is looked up under it in the unknown namespace. -/
theorem AsksFor.gives {ctx : Context} {name : String} {d : Draft} {op : Operation} (asks : op.AsksFor ctx name d)
    (agree : d.registry.Matches d.repository) (spaces : d.registry.namespaces.Names d.repository.namespaceName) :
    ∃ f, (op.perform ctx = do return .ofId (← f)) ∧ GivesType (unknownKey name) f d := by
  cases op with
  | unknownType =>
    obtain rfl : name = unknownName := asks
    exact ⟨_, rfl, Draft.gives_unknownType d⟩
  | typeOfExpr t => exact ⟨_, rfl, Draft.gives_typeOfExpr asks⟩
  | typeOfRef t => exact ⟨_, rfl, Draft.gives_typeOfRef asks.1 asks.2⟩
  | typeOfBinding i =>
    refine ⟨_, rfl, ?_⟩
    rcases asks with ⟨dangling, rfl⟩ | ⟨b, listed, unpackaged, rfl, outermost⟩
    · rw [Draft.typeOfBinding_beyond dangling]
      exact Draft.gives_unknownType d
    · have free : enclosing? ctx.bindings b = none := by
        cases found : enclosing? ctx.bindings b with
        | none => rfl
        | some e => exact absurd (enclosing?_some found) (outermost e.outer)
      rw [← typeKey_unpackaged free unpackaged]
      exact Draft.gives_typeOfBinding listed free
  | typeOfDecl decl =>
    obtain ⟨unbound, rfl, outside⟩ := asks
    exact ⟨_, rfl, Draft.gives_typeOfDecl agree spaces unbound outside⟩
  | _ => exact asks.elim

theorem namespaces_named (ctx : Context) (history : List Operation) :
    (applyAll ctx history {}).registry.namespaces.Names (applyAll ctx history {}).repository.namespaceName :=
  (applyAll_invariant
    (P := fun d => d.registry.Matches d.repository ∧ d.registry.namespaces.Names d.repository.namespaceName) ctx
    (fun c _ h => ⟨h.1.change c, c.namespaces_named h.1 h.2⟩) (fun _ _ h => h) history {} ⟨.empty, nofun⟩).2

/-- A name without a package is one type, however it is asked for: as it is written in a reference, by a binding that
has no package, or by a declaration outside any container. Whatever was done before, and whatever is done in between,
the second operation finds the type that the first has found or made; it would have given the same in its place. What
has no name, and what is beyond the end of the table, is the unknown type in the same way. -/
theorem unpackaged_converge (ctx : Context) (history : List Operation) (name : String) (first second : Operation)
    (between : List Operation) :
    let before := applyAll ctx history {}
    let made := first.perform ctx before
    let later := applyAll ctx between made.2
    let found := second.perform ctx later
    first.AsksFor ctx name before → second.AsksFor ctx name later → ∃ id : TypeId,
      made.1 = .ofId id ∧ found.1 = .ofId id ∧
      found.2.registry.types.get? (unknownName ++ "." ++ name) = some id ∧
      found.2.repository.types.size = later.repository.types.size ∧
      (second.AsksFor ctx name before → (second.perform ctx before).1 = .ofId id) := by
  intro before made later found asks asksAgain
  have agree : before.registry.Matches before.repository := applyAll_agree ctx history .empty
  have reached : later = applyAll ctx (history ++ first :: between) {} :=
    (applyAll_append ctx history (first :: between) {}).symm
  have agreeAgain : later.registry.Matches later.repository := reached ▸ applyAll_agree ctx _ .empty
  obtain ⟨f, performs, gives⟩ := asks.gives agree (namespaces_named ctx history)
  obtain ⟨g, performsAgain, givesAgain⟩ := asksAgain.gives agreeAgain (reached ▸ namespaces_named ctx _)
  have opens : made = (.ofId (f before).1, (f before).2) := congrFun performs before
  have finds : found = (.ofId (g later).1, (g later).2) := congrFun performsAgain later
  have since : Draft.Later (f before).2 later := congrArg Prod.snd opens ▸ .history ctx between made.2
  obtain ⟨same, size⟩ := gives.later since givesAgain
  refine ⟨(f before).1, congrArg Prod.fst opens, ?_, ?_, ?_, fun now => ?_⟩
  · rw [finds, same]
  · rw [finds, ← same]
    exact givesAgain.registers
  · rw [finds]
    exact size
  · obtain ⟨h, performsNow, givesNow⟩ := now.gives agree (namespaces_named ctx history)
    have alone : second.perform ctx before = (.ofId (h before).1, (h before).2) := congrFun performsNow before
    rw [alone, gives.agree givesNow]

/-- A table with one class, which has no package. -/
def looseContext : Context where
  bindings := { types := [{ qualifiedName := "T", name := "T" }] }

/-- The class is declared when a namespace has been left, and asked for by its binding inside another class. What is no
name and what is beyond the end of the table are both unknown. -/
theorem unpackaged_converge_loose :
    let history : List Operation := [.ensureNamespace "p", .enter (.ns ⟨0⟩), .leave]
    let declares : Operation := .typeOfDecl ⟨"T", .classType, none, [], none, [], []⟩
    let between : List Operation := [.typeOfDecl ⟨"C", .classType, none, [], none, [], []⟩, .enter (.type ⟨1⟩)]
    let before := applyAll looseContext history {}
    let made := declares.perform looseContext before
    let found := (Operation.typeOfBinding 0).perform looseContext (applyAll looseContext between made.2)
    let array : Operation := .typeOfRef { written := .array (.simple "T") 1 }
    let unnamed := array.perform looseContext before
    let beyond := (Operation.typeOfBinding 7).perform looseContext (applyAll looseContext between unnamed.2)
    declares.AsksFor looseContext "T" before ∧ made.1 = found.1 ∧ unnamed.1 = beyond.1 := by
  intro history declares between before made found array unnamed beyond
  have outermost : ∀ outer, ¬ MemberOf looseContext.bindings looseContext.bindings.types[0] outer :=
    enclosing?_none rfl
  have asks : declares.AsksFor looseContext "T" before := ⟨nofun, rfl, rfl⟩
  obtain ⟨id, first, second, -⟩ := unpackaged_converge looseContext history "T" declares (.typeOfBinding 0) between
    asks (.inr ⟨_, rfl, rfl, rfl, outermost⟩)
  obtain ⟨other, third, fourth, -⟩ := unpackaged_converge looseContext history unknownName array (.typeOfBinding 7)
    between ⟨nofun, rfl⟩ (.inl ⟨rfl, rfl⟩)
  exact ⟨asks, first.trans second.symm, third.trans fourth.symm⟩

end Operation

end Famix
