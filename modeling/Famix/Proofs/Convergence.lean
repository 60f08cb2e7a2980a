import Famix.Proofs.Membership

/-!
Two ways to one method. A method of the table is reached by its place, or by a declaration of it in the class that
declares it. Both lead to the same method, whichever is taken first and whatever is done in between: the one finds the
owner in the table and the other in the scope, and both make the same signature.
-/
namespace Famix

open Java (MethodBinding MethodDecl MethodIndex TypeIndex methodSignature)

namespace Draft

inductive Route where
  | binding
  | declaration (decl : MethodDecl)

namespace Route

def follow (ctx : Context) (i : MethodIndex) : Route → Drafting MethodId
  | .binding => methodOfBinding ctx i
  | .declaration decl => methodOfDecl ctx decl

def Declares : Route → Prop
  | .binding => False
  | .declaration _ => True

/-- When a route leads to the method `m` at a place of the table, which the class at `c` declares. A declaration must
have its name and its parameter types, be bound to it or to nothing, and stand in that class. -/
def Leads (ctx : Context) (i : MethodIndex) (m : MethodBinding) (c : TypeIndex) (d : Draft) : Route → Prop
  | .binding => True
  | .declaration decl =>
    decl.name = m.name ∧ decl.parameters.map (·.type.binding) = m.parameterTypes.map some ∧
      (decl.binding = some i ∨ ∀ j, decl.binding = some j → ctx.bindings.methods[j]? = none) ∧
      d.ownerType = some (typeOfBinding ctx c d).1

end Route

/-- The qualified names of the types at some places, all of which are in the table. -/
def QualifiedNames (ctx : Context) (places : List TypeIndex) (names : List String) : Prop :=
  places.map (fun i => ctx.bindings.types[i]?.map (·.qualifiedName)) = names.map some

namespace QualifiedNames

variable {ctx : Context} {places : List TypeIndex} {names : List String}

theorem bound (h : QualifiedNames ctx places names) : places.map (boundTypeText ctx) = names := by
  induction places generalizing names with
  | nil =>
    cases names with
    | nil => rfl
    | cons name names => cases h
  | cons i places ih =>
    cases names with
    | nil => cases h
    | cons name names =>
      obtain ⟨first, others⟩ := List.cons.inj h
      obtain ⟨b, known, rfl⟩ := Option.map_eq_some_iff.mp first
      have text : boundTypeText ctx i = b.qualifiedName := by
        simp only [boundTypeText, Java.BindingTable.typeAt?, known]
      rw [List.map_cons, text, ih others]

theorem written (h : QualifiedNames ctx places names) {parameters : List Java.ParameterDecl}
    (same : parameters.map (·.type.binding) = places.map some) :
    parameters.map (writtenTypeText ctx ·.type) = names := by
  induction parameters generalizing places names with
  | nil =>
    cases places with
    | nil =>
      cases names with
      | nil => rfl
      | cons name names => cases h
    | cons i places => cases same
  | cons parameter parameters ih =>
    cases places with
    | nil => cases same
    | cons i places =>
      cases names with
      | nil => cases h
      | cons name names =>
        obtain ⟨first, others⟩ := List.cons.inj h
        obtain ⟨refers, rest⟩ := List.cons.inj same
        obtain ⟨b, known, rfl⟩ := Option.map_eq_some_iff.mp first
        have text : writtenTypeText ctx parameter.type = b.qualifiedName := by
          simp only [writtenTypeText, Java.BindingTable.resolveType, Java.BindingTable.resolveIn, refers, known]
        rw [List.map_cons, text, ih others rest]

end QualifiedNames

/-- The method of a declaration in a class. -/
def methodWithin (ctx : Context) (decl : MethodDecl) (owner : TypeId) : Drafting MethodId :=
  match ctx.bindings.resolveMethod decl.binding decl with
  | .resolved _ b => methodOfResolved ctx b owner
  | .unresolved decl => methodOfUnboundDecl ctx decl owner

theorem methodOfDecl_eq (ctx : Context) (decl : MethodDecl) : methodOfDecl ctx decl = (do
    let id ← methodWithin ctx decl (← ownerOrUnknown)
    modify (Change.methodDeclared id decl.modifiers).apply
    return id) := by
  refine bind_congr fun owner => ?_
  unfold methodWithin
  cases ctx.bindings.resolveMethod decl.binding decl with
  | resolved j b => rfl
  | unresolved hint => rfl

theorem ownerOrUnknown_of_some {d : Draft} {owner : TypeId} (owned : d.ownerType = some owner) :
    ownerOrUnknown d = (owner, d) := by
  unfold ownerOrUnknown
  rw [get_bind_apply, owned]
  rfl

theorem methodOfDecl_owned {ctx : Context} {decl : MethodDecl} {d : Draft} {owner : TypeId}
    (owned : d.ownerType = some owner) : methodOfDecl ctx decl d =
      ((methodWithin ctx decl owner d).1,
        (Change.methodDeclared (methodWithin ctx decl owner d).1 decl.modifiers).apply
          (methodWithin ctx decl owner d).2) := by
  rw [methodOfDecl_eq]
  exact congrArg (fun start : TypeId × Draft => (do
    let id ← methodWithin ctx decl start.1
    modify (Change.methodDeclared id decl.modifiers).apply
    return id) start.2) (ownerOrUnknown_of_some owned)

section Steps

variable {ctx : Context} {i : MethodIndex} {m : MethodBinding} {c : TypeIndex} {names : List String}
  (listed : ctx.bindings.methods[i]? = some m) (named : QualifiedNames ctx m.parameterTypes names)
include listed named

theorem introduces_methodWithin {decl : MethodDecl} {d : Draft} (leads : (Route.declaration decl).Leads ctx i m c d)
    (owner : TypeId) : Introduces owner (methodSignature m.name names) (methodWithin ctx decl owner) d := by
  obtain ⟨name, parameters, bound, -⟩ := leads
  have resolved := introduces_methodOfResolved ctx m owner d
  have unbound := introduces_methodOfUnboundDecl ctx decl owner d
  rw [named.bound] at resolved
  rw [named.written parameters, name] at unbound
  unfold methodWithin Java.BindingTable.resolveMethod Java.BindingTable.resolveIn
  rcases bound with bound | dangling
  · simp only [bound, listed]
    exact resolved
  · cases bound : decl.binding with
    | none => exact unbound
    | some j =>
      simp only [dangling j bound]
      exact unbound

end Steps

/-- A class in which a declaration stands is registered already. -/
theorem owner_resolved {ctx : Context} {c : TypeIndex} {d : Draft} (sound : Sound .bare d)
    (agree : d.registry.Matches d.repository) (owned : d.ownerType = some (typeOfBinding ctx c d).1) :
    resolved? ctx.bindings d c = some (typeOfBinding ctx c d).1 := by
  have there := sound.sited.ownerType_holds owned
  have run := resolveIndex_runs ctx.bindings c d
  have after := run.path.agree agree
  obtain ⟨key, known, -⟩ := agree.types.named _ there
  obtain ⟨_, -, unique⟩ := after.types.named _ (run.path.before .type |> Nat.lt_of_lt_of_le there)
  -- both the key of the owner and that of the class lead to the type in the end
  have own : key = indexKey ctx.bindings c :=
    (unique key (run.registry_extends.types _ _ known)).trans (unique _ run.registers).symm
  rw [resolved?, ← own]
  exact known

/-- The method is filed as that of the class at `c` with this signature. -/
structure MethodFiled (ctx : Context) (c : TypeIndex) (signature : String) (owner : TypeId) (id : MethodId)
    (d : Draft) : Prop where
  sound : Sound .bare d
  resolved : resolved? ctx.bindings d c = some owner
  filed : d.registry.methods.get? (d.repository.typeName owner ++ "." ++ signature) = some id

namespace MethodFiled

variable {ctx : Context} {c : TypeIndex} {signature : String} {owner : TypeId} {id : MethodId} {d e : Draft}

theorem of_introduces {f : Drafting MethodId} (h : Introduces owner signature f d) (sound : Sound .bare d)
    (after : Sound .bare e) (later : Later (f d).2 e) (resolved : resolved? ctx.bindings d c = some owner) :
    MethodFiled ctx c signature owner (f d).1 e where
  sound := after
  resolved := ((Later.path h.path).trans later).registry.types _ _ resolved
  filed := by
    rw [sound.sited.rooted.typeName_keep ((Later.path h.path).trans later).keeps (sound.holds_type resolved)]
    exact later.registry.methods _ _ h.registers

/-- It is found at any later time, in whatever way the key is looked for. -/
theorem found {f : Drafting MethodId} (h : MethodFiled ctx c signature owner id d) (later : Later d e)
    (step : Introduces owner signature f e) : f e = (id, e) := by
  apply step.known id
  rw [h.sound.sited.rooted.typeName_keep later.keeps (h.sound.holds_type h.resolved)]
  exact later.registry.methods _ _ h.filed

theorem owner_again (h : MethodFiled ctx c signature owner id d) (later : Later d e) :
    (typeOfBinding ctx c e).1 = owner :=
  typeOfBinding_resolved (later.registry.types _ _ h.resolved)

theorem holds (h : MethodFiled ctx c signature owner id d) : Present id d := h.sound.sited.known.methods _ _ h.filed

end MethodFiled

/-- The method is there as a declaration leaves it: it is no stub, and has modifiers. -/
def Declared (id : MethodId) (d : Draft) : Prop :=
  ∃ x, d.repository.method? id = some x ∧ x.toNamedEntity.Seen false

theorem Declared.later {id : MethodId} {d e : Draft} (h : Declared id d) (later : Later d e) : Declared id e := by
  obtain ⟨x, known, seen⟩ := h
  obtain ⟨y, kept, still⟩ := later.methods id.index x known
  exact ⟨y, kept, still seen⟩

theorem declared_apply {id : MethodId} {d : Draft} (there : Present id d) (modifiers : List Modifier) :
    Declared id ((Change.methodDeclared id modifiers).apply d) := by
  obtain ⟨m, known⟩ := there.method
  refine ⟨{ m with toNamedEntity := m.toNamedEntity.declare modifiers }, ?_, NamedEntity.seen_declare _ modifiers⟩
  have changed : ((Change.methodDeclared id modifiers).apply d).repository.method? id =
      (d.repository.method? id).map fun m => { m with toNamedEntity := m.toNamedEntity.declare modifiers } :=
    (Array.getElem?_modify ..).trans (if_pos rfl)
  rw [changed, known]
  rfl

namespace Route

theorem later (ctx : Context) (i : MethodIndex) (route : Route) (d : Draft) : Later d (route.follow ctx i d).2 := by
  cases route with
  | binding => exact .path ((builds_methodOfBinding ctx i).any.path d)
  | declaration decl => exact .path ((builds_methodOfDecl ctx decl).any.path d)

variable {ctx : Context} {i : MethodIndex} {m : MethodBinding} {c : TypeIndex} {names : List String}
  (listed : ctx.bindings.methods[i]? = some m) (declared : m.declaringClass = some c)
  (named : QualifiedNames ctx m.parameterTypes names)
include listed declared named

/-- The first time a route is followed, it files the method, and makes no other. -/
theorem follow_files {route : Route} {d : Draft} (sound : Sound .bare d) (agree : d.registry.Matches d.repository)
    (leads : route.Leads ctx i m c d) : ∃ owner,
      MethodFiled ctx c (methodSignature m.name names) owner (route.follow ctx i d).1 (route.follow ctx i d).2 ∧
      (route.follow ctx i d).2.repository.methods.size ≤ d.repository.methods.size + 1 ∧
      (d.repository.methods.size ≤ (route.follow ctx i d).1.index →
        ∃ x, (route.follow ctx i d).2.repository.method? (route.follow ctx i d).1 = some x ∧
          x.signature = methodSignature m.name names ∧ x.parentType = owner) ∧
      (route.Declares → Declared (route.follow ctx i d).1 (route.follow ctx i d).2) := by
  have kept := Promises.bare_keeps ctx
  cases route with
  | binding =>
    dsimp only [follow]
    rw [methodOfBinding_eq listed declared]
    obtain ⟨walk, there⟩ := achieves_typeOfBinding kept sound c
    have sound' := walk.sound sound
    have step := introduces_methodOfResolved ctx m (typeOfBinding ctx c d).1 (typeOfBinding ctx c d).2
    rw [named.bound] at step
    have after := (achieves_methodOfResolved sound' kept m there).walk.sound sound'
    have adds := step.adds sound'.sited.known.methods
    rw [(spares_typeOfBinding ctx c d).methods] at adds
    exact ⟨_, .of_introduces step sound' after (.refl _) (resolveIndex_runs ctx.bindings c d).registers, adds.1,
      adds.2, False.elim⟩
  | declaration decl =>
    have owned := leads.2.2.2
    have step := introduces_methodWithin listed named leads (typeOfBinding ctx c d).1
    have after := (achieves_methodOfDecl sound kept decl).walk.sound sound
    dsimp only [follow]
    rw [methodOfDecl_owned owned] at after ⊢
    have declares := Later.change (.methodDeclared (methodWithin ctx decl (typeOfBinding ctx c d).1 d).1 decl.modifiers)
      (methodWithin ctx decl (typeOfBinding ctx c d).1 d).2
    have filed := MethodFiled.of_introduces step sound after declares (owner_resolved sound agree owned)
    obtain ⟨size, made⟩ := step.adds sound.sited.known.methods
    refine ⟨_, filed, Nat.le_trans (Nat.le_of_eq Array.size_modify) size, fun new => ?_, fun _ => ?_⟩
    · obtain ⟨x, known, signature, parent⟩ := made new
      obtain ⟨y, kept, same, also⟩ := declares.keeps.methods _ x known
      exact ⟨y, kept, same.trans signature, also.trans parent⟩
    · exact declared_apply (Nat.lt_of_lt_of_eq filed.holds Array.size_modify) decl.modifiers

/-- From then on, every route leads to it. -/
theorem follow_finds {route : Route} {d e : Draft} {owner : TypeId} {id : MethodId}
    (filed : MethodFiled ctx c (methodSignature m.name names) owner id d) (later : Later d e)
    (leads : route.Leads ctx i m c e) : (route.follow ctx i e).1 = id ∧
      (route.follow ctx i e).2.repository.methods.size = e.repository.methods.size ∧
      (route.Declares → Declared id (route.follow ctx i e).2) := by
  cases route with
  | binding =>
    have resolves : Later e (typeOfBinding ctx c e).2 := .path ((builds_typeOfBinding ctx c).any.path e)
    have step := introduces_methodOfResolved ctx m owner (typeOfBinding ctx c e).2
    rw [named.bound] at step
    dsimp only [follow]
    rw [methodOfBinding_eq listed declared, filed.owner_again later, filed.found (later.trans resolves) step]
    exact ⟨rfl, congrArg Array.size (spares_typeOfBinding ctx c e).methods, False.elim⟩
  | declaration decl =>
    have owned := leads.2.2.2
    rw [filed.owner_again later] at owned
    dsimp only [follow]
    rw [methodOfDecl_owned owned, filed.found later (introduces_methodWithin listed named leads owner)]
    exact ⟨rfl, Array.size_modify, fun _ => declared_apply (later.keeps.holds filed.holds) decl.modifiers⟩

end Route

end Draft

namespace Operation

open Draft (Route QualifiedNames Declared)

/-- A method of the table that has a declaring class and known parameter types is one method by every route: by its
place, or by a declaration of it inside that class. The second route finds what the first has found or made, whatever
is done in between, and adds nothing; what the first makes has the qualified names of the parameter types in its
signature and belongs to the class. A method that was declared is no stub. -/
theorem routes_converge (ctx : Context) (history : List Operation) (fits : Admissible .bare ctx history {})
    (i : MethodIndex) (m : MethodBinding) (c : TypeIndex) (names : List String)
    (listed : ctx.bindings.methods[i]? = some m) (declared : m.declaringClass = some c)
    (named : QualifiedNames ctx m.parameterTypes names) (first second : Route) (between : List Operation) :
    let before := applyAll ctx history {}
    let made := first.follow ctx i before
    let later := applyAll ctx between made.2
    let found := second.follow ctx i later
    first.Leads ctx i m c before → second.Leads ctx i m c later →
      found.1 = made.1 ∧
      made.2.repository.methods.size ≤ before.repository.methods.size + 1 ∧
      found.2.repository.methods.size = later.repository.methods.size ∧
      (before.repository.methods.size ≤ made.1.index → ∃ x, found.2.repository.method? found.1 = some x ∧
        x.signature = m.name ++ "(" ++ Java.separated ", " names ++ ")" ∧
        x.parentType = (Draft.typeOfBinding ctx c found.2).1) ∧
      (first.Declares → Declared made.1 made.2) ∧
      (first.Declares ∨ second.Declares → Declared found.1 found.2) := by
  intro before made later found leads leadsAgain
  have sound : Draft.Sound .bare before := sound_applyAll (Promises.bare_keeps ctx) history (sound_empty .bare) fits
  have agree : before.registry.Matches before.repository := applyAll_agree ctx history .empty
  obtain ⟨owner, filed, size, new, stays⟩ := Route.follow_files listed declared named sound agree leads
  have since : Draft.Later made.2 later := .history ctx between made.2
  obtain ⟨same, sizeAgain, declares⟩ := Route.follow_finds listed declared named filed since leadsAgain
  have whole : Draft.Later made.2 found.2 := since.trans (Route.later ctx i second later)
  refine ⟨same, size, sizeAgain, fun fresh => ?_, stays, ?_⟩
  · obtain ⟨x, known, signature, parent⟩ := new fresh
    obtain ⟨y, kept, sameSignature, sameParent⟩ := whole.keeps.methods _ x known
    refine ⟨y, (congrArg found.2.repository.method? same).trans kept, sameSignature.trans signature, ?_⟩
    exact (sameParent.trans parent).trans (filed.owner_again whole).symm
  · rw [show found.1 = made.1 from same]
    rintro (already | now)
    · exact (stays already).later whole
    · exact declares now

theorem selfDecl_leads : (Route.declaration selfDecl).Leads selfContext 0 selfContext.bindings.methods[0] 0
    (applyAll selfContext selfHistory {}) := by
  refine ⟨rfl, rfl, .inr nofun, ?_⟩
  have resolved : Draft.resolved? selfContext.bindings (applyAll selfContext selfHistory {}) 0 = some ⟨0⟩ := by
    decide +kernel
  rw [Draft.typeOfBinding_resolved resolved]
  decide +kernel

theorem routes_converge_self :
    let m := selfContext.bindings.methods[0]
    let between : List Operation := [.leave, .methodOfDecl { selfDecl with parameters := [] }, .typeOfBinding 7]
    let before := applyAll selfContext selfHistory {}
    let made := (Route.declaration selfDecl).follow selfContext 0 before
    let later := applyAll selfContext between made.2
    let found := Route.binding.follow selfContext 0 later
    Admissible .bare selfContext selfHistory {} ∧ QualifiedNames selfContext m.parameterTypes ["p.A"] ∧
    (Route.declaration selfDecl).Leads selfContext 0 m 0 before ∧
      found.1 = made.1 ∧
      made.2.repository.methods.size ≤ before.repository.methods.size + 1 ∧
      found.2.repository.methods.size = later.repository.methods.size ∧
      (before.repository.methods.size ≤ made.1.index → ∃ x, found.2.repository.method? found.1 = some x ∧
        x.signature = m.name ++ "(" ++ Java.separated ", " ["p.A"] ++ ")" ∧
        x.parentType = (Draft.typeOfBinding selfContext 0 found.2).1) ∧
      ((Route.declaration selfDecl).Declares → Declared made.1 made.2) ∧
      ((Route.declaration selfDecl).Declares ∨ Route.binding.Declares → Declared found.1 found.2) := by
  intro m between before made later found
  have named : QualifiedNames selfContext m.parameterTypes ["p.A"] := rfl
  exact ⟨selfHistory_admissible, named, selfDecl_leads, routes_converge selfContext selfHistory selfHistory_admissible
    0 m 0 ["p.A"] rfl rfl named (.declaration selfDecl) .binding between selfDecl_leads trivial⟩

end Operation

end Famix
