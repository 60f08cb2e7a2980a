import Famix.Mse.Description
import Famix.Proofs.Rebinding
import Famix.Proofs.Change

/-!
Places in the table are names and nothing else. If the entries of a table are moved to other places, and whatever
refers to them is told, the model stays the same, whatever else the new table holds.
-/
namespace Famix

open Java (BindingTable TypeBinding MethodBinding VariableBinding TypeIndex MethodIndex VariableIndex TypeRef
  ParameterDecl Expr Fragment Statement AnonymousClass Member TypeDecl CompilationUnit Project)

/-! One rebinding after another. -/

namespace Rebinding

def comp (ρ σ : Rebinding) : Rebinding where
  type i := ρ.type (σ.type i)
  method i := ρ.method (σ.method i)
  vars i := ρ.vars (σ.vars i)

variable (ρ σ : Rebinding)

theorem map_typeRef_comp (t : Option TypeRef) : t.map (ρ.comp σ).typeRef = (t.map σ.typeRef).map ρ.typeRef := by
  cases t <;> rfl

theorem typeRefs_comp (ts : List TypeRef) : ts.map (ρ.comp σ).typeRef = (ts.map σ.typeRef).map ρ.typeRef := by
  rw [List.map_map]
  rfl

theorem parameters_comp (ps : List ParameterDecl) :
    ps.map (ρ.comp σ).parameter = (ps.map σ.parameter).map ρ.parameter := by
  rw [List.map_map]
  rfl

mutual
theorem expr_comp (e : Expr) : (ρ.comp σ).expr e = ρ.expr (σ.expr e) := by
  cases e with
  | name | literal | other => simp only [expr, comp]
  | assignment target value => simp only [expr, expr_comp]
  | invocation receiver name arguments binding =>
    simp only [expr, option_comp, exprs_comp]
    rfl
  | creation type arguments binding anonymous =>
    simp only [expr, exprs_comp, anonymousClass_comp]
    rfl

theorem option_comp (e : Option Expr) : (ρ.comp σ).option e = ρ.option (σ.option e) := by
  cases e with
  | none => simp only [option]
  | some e => simp only [option, expr_comp]

theorem exprs_comp (es : List Expr) : (ρ.comp σ).exprs es = ρ.exprs (σ.exprs es) := by
  cases es with
  | nil => simp only [exprs]
  | cons e rest => simp only [exprs, expr_comp, exprs_comp]

theorem anonymousClass_comp (a : Option AnonymousClass) :
    (ρ.comp σ).anonymousClass a = ρ.anonymousClass (σ.anonymousClass a) := by
  cases a with
  | none => simp only [anonymousClass]
  | some a =>
    obtain ⟨binding, body⟩ := a
    simp only [anonymousClass, members_comp]
    rfl

theorem statement_comp (s : Statement) : (ρ.comp σ).statement s = ρ.statement (σ.statement s) := by
  cases s with
  | localVariable type fragments =>
    simp only [statement, fragmentList_comp]
    rfl
  | expression e => simp only [statement, expr_comp]
  | returned value => simp only [statement, option_comp]
  | block body => simp only [statement, statements_comp]

theorem statements_comp (ss : List Statement) : (ρ.comp σ).statements ss = ρ.statements (σ.statements ss) := by
  cases ss with
  | nil => simp only [statements]
  | cons s rest => simp only [statements, statement_comp, statements_comp]

theorem fragmentList_comp (fs : List Fragment) : (ρ.comp σ).fragmentList fs = ρ.fragmentList (σ.fragmentList fs) := by
  cases fs with
  | nil => simp only [fragmentList]
  | cons f rest =>
    obtain ⟨name, binding, initial⟩ := f
    simp only [fragmentList, option_comp, fragmentList_comp]
    rfl

theorem member_comp (m : Member) : (ρ.comp σ).member m = ρ.member (σ.member m) := by
  cases m with
  | field decl =>
    obtain ⟨type, modifiers, fragments⟩ := decl
    simp only [member, fragmentList_comp]
    rfl
  | method decl =>
    obtain ⟨name, binding, isConstructor, returnType, parameters, modifiers, body⟩ := decl
    simp only [member, map_typeRef_comp, parameters_comp, statements_comp]
    rfl
  | initializer decl =>
    obtain ⟨isStatic, body⟩ := decl
    simp only [member, statements_comp]
  | type decl =>
    obtain ⟨name, kind, binding, modifiers, superclass, interfaces, body⟩ := decl
    simp only [member, map_typeRef_comp, typeRefs_comp, members_comp]
    rfl

theorem members_comp (ms : List Member) : (ρ.comp σ).members ms = ρ.members (σ.members ms) := by
  cases ms with
  | nil => simp only [members]
  | cons m rest => simp only [members, member_comp, members_comp]
end

theorem typeDecl_comp (t : TypeDecl) : (ρ.comp σ).typeDecl t = ρ.typeDecl (σ.typeDecl t) := by
  simp only [typeDecl, map_typeRef_comp, typeRefs_comp, members_comp]
  rfl

theorem unit_comp (u : CompilationUnit) : (ρ.comp σ).unit u = ρ.unit (σ.unit u) := by
  simp only [unit, List.map_map]
  congr 1
  exact List.map_congr_left fun t _ => ρ.typeDecl_comp σ t

end Rebinding

/-! What a table refers to. -/

namespace Java

def TypeBinding.places (b : TypeBinding) : List TypeIndex :=
  b.declaringClass.toList ++ b.superclass.toList ++ b.interfaces ++ b.erasure.toList ++ b.typeArguments

def MethodBinding.places (b : MethodBinding) : List TypeIndex :=
  b.declaringClass.toList ++ b.parameterTypes ++ b.returnType.toList

def VariableBinding.places (b : VariableBinding) : List TypeIndex := b.declaringClass.toList ++ b.type.toList

theorem TypeBinding.mem_places {b : TypeBinding} {i : TypeIndex} : i ∈ b.places ↔ b.declaringClass = some i ∨
    b.superclass = some i ∨ i ∈ b.interfaces ∨ b.erasure = some i ∨ i ∈ b.typeArguments := by
  simp [places]

theorem MethodBinding.mem_places {b : MethodBinding} {i : TypeIndex} :
    i ∈ b.places ↔ b.declaringClass = some i ∨ i ∈ b.parameterTypes ∨ b.returnType = some i := by
  simp [places]

theorem VariableBinding.mem_places {b : VariableBinding} {i : TypeIndex} :
    i ∈ b.places ↔ b.declaringClass = some i ∨ b.type = some i := by
  simp [places]

abbrev BindingTable.Holds (table : BindingTable) (is : List TypeIndex) : Prop := ∀ i ∈ is, i < table.types.length

/-- Every place that an entry refers to is in the table. -/
structure BindingTable.Closed (table : BindingTable) : Prop where
  types : ∀ b ∈ table.types, table.Holds b.places
  methods : ∀ b ∈ table.methods, table.Holds b.places
  vars : ∀ b ∈ table.vars, table.Holds b.places

/-- Nothing refers beyond the end of the table: neither an entry of the table nor a node of the source. -/
structure Project.Closed (project : Project) : Prop where
  bindings : project.bindings.Closed
  units : project.pruned = project

end Java

/-- A new place for every place of a table. -/
structure Renumbering where
  type : TypeIndex → TypeIndex
  method : MethodIndex → MethodIndex
  vars : VariableIndex → VariableIndex

namespace Renumbering

variable (σ : Renumbering)

def typeBinding (b : TypeBinding) : TypeBinding :=
  { b with
    declaringClass := b.declaringClass.map σ.type
    superclass := b.superclass.map σ.type
    interfaces := b.interfaces.map σ.type
    erasure := b.erasure.map σ.type
    typeArguments := b.typeArguments.map σ.type }

def methodBinding (b : MethodBinding) : MethodBinding :=
  { b with
    declaringClass := b.declaringClass.map σ.type
    parameterTypes := b.parameterTypes.map σ.type
    returnType := b.returnType.map σ.type }

def variableBinding (b : VariableBinding) : VariableBinding :=
  { b with declaringClass := b.declaringClass.map σ.type, type := b.type.map σ.type }

def rebinding : Rebinding where
  type := Option.map σ.type
  method := Option.map σ.method
  vars := Option.map σ.vars

/-- Every entry of one table stands at its new place in the other, and refers to the new places. Other places of the
other table may hold anything. -/
structure Carries (table table' : BindingTable) : Prop where
  types : ∀ (i : TypeIndex) (b : TypeBinding), table.types[i]? = some b →
    table'.types[σ.type i]? = some (σ.typeBinding b)
  methods : ∀ (i : MethodIndex) (b : MethodBinding), table.methods[i]? = some b →
    table'.methods[σ.method i]? = some (σ.methodBinding b)
  vars : ∀ (i : VariableIndex) (b : VariableBinding), table.vars[i]? = some b →
    table'.vars[σ.vars i]? = some (σ.variableBinding b)

/-- A project whose table is carried over, and whose nodes carry the new places. -/
structure Moves (project project' : Project) : Prop where
  bindings : σ.Carries project.bindings project'.bindings
  units : project'.units = project.units.map σ.rebinding.unit

end Renumbering

theorem enclosing?_parts (table : BindingTable) (b : TypeBinding) :
    (enclosing? table b).map (fun e => (e.outer, e.suffix)) = do
      let i ← b.declaringClass
      let outer ← table.types[i]?
      let suffix ← memberSuffix outer b
      return (outer, suffix) := by
  unfold enclosing?
  cases b.declaringClass with
  | none => rfl
  | some i =>
    by_cases inside : i < table.types.length
    · cases known : memberSuffix table.types[i] b <;> simp [inside, known]
    · simp [inside]

/-! The same key, and the same run. -/

namespace Draft

/-- The places that a task starts from. -/
def Task.starts : Task → List TypeIndex
  | .index i => [i]
  | .every is | .link _ is => is
  | .place b | .complete b _ | .binding b => b.places

end Draft

namespace Renumbering

open Draft (Task Found Resolves)

def task (σ : Renumbering) : Task → Task
  | .index i => .index (σ.type i)
  | .every is => .every (is.map σ.type)
  | .link s is => .link s (is.map σ.type)
  | .place b => .place (σ.typeBinding b)
  | .complete b id => .complete (σ.typeBinding b) id
  | .binding b => .binding (σ.typeBinding b)

variable {σ : Renumbering} {table table' : BindingTable}

theorem Carries.enclosing?_parts (carries : σ.Carries table table') {b : TypeBinding}
    (inside : table.Holds b.places) :
    (enclosing? table' (σ.typeBinding b)).map (fun e => (e.outer, e.suffix)) =
      (enclosing? table b).map fun e => (σ.typeBinding e.outer, e.suffix) := by
  have parts := congrArg (Option.map (Prod.map σ.typeBinding id)) (Famix.enclosing?_parts table b)
  rw [Option.map_map] at parts
  refine (Famix.enclosing?_parts ..).trans (Eq.trans ?_ parts.symm)
  have moved : (σ.typeBinding b).declaringClass = b.declaringClass.map σ.type := rfl
  cases declaring : b.declaringClass with
  | none => simp [moved, declaring]
  | some i =>
    obtain ⟨outer, listed⟩ : ∃ outer, table.types[i]? = some outer :=
      ⟨_, List.getElem?_eq_getElem (inside i (TypeBinding.mem_places.mpr (.inl declaring)))⟩
    have suffix : memberSuffix (σ.typeBinding outer) (σ.typeBinding b) = memberSuffix outer b := rfl
    cases known : memberSuffix outer b <;>
      simp [moved, declaring, listed, carries.types i outer listed, suffix, known]

theorem Carries.enclosing?_some (carries : σ.Carries table table') {b : TypeBinding}
    (inside : table.Holds b.places) {e : Enclosing table b} (found : enclosing? table b = some e) :
    ∃ e', enclosing? table' (σ.typeBinding b) = some e' ∧ e'.outer = σ.typeBinding e.outer ∧ e'.suffix = e.suffix := by
  have parts := carries.enclosing?_parts inside
  rw [found, Option.map_some, Option.map_eq_some_iff] at parts
  obtain ⟨e', found', same⟩ := parts
  exact ⟨e', found', congrArg Prod.fst same, congrArg Prod.snd same⟩

theorem Carries.enclosing?_none (carries : σ.Carries table table') {b : TypeBinding}
    (inside : table.Holds b.places) (free : enclosing? table b = none) :
    enclosing? table' (σ.typeBinding b) = none := by
  have parts := carries.enclosing?_parts inside
  rwa [free, Option.map_none, Option.map_eq_none_iff] at parts

theorem Carries.keyOf (carries : σ.Carries table table') (closed : table.Closed) {b : TypeBinding} {key : String}
    (h : KeyOf table b key) (inside : table.Holds b.places) :
    KeyOf table' (σ.typeBinding b) key := by
  induction h with
  | enclosed e found outer ih =>
    obtain ⟨e', found', sameOuter, sameSuffix⟩ := carries.enclosing?_some inside found
    rw [← sameSuffix]
    exact .enclosed e' found' (sameOuter ▸ ih (closed.types _ e.listed))
  | packaged free packaged => exact .packaged (b := σ.typeBinding _) (carries.enclosing?_none inside free) packaged
  | unpackaged free unpackaged =>
    exact .unpackaged (b := σ.typeBinding _) (carries.enclosing?_none inside free) unpackaged

theorem Carries.typeKey (carries : σ.Carries table table') (closed : table.Closed) {b : TypeBinding}
    (inside : table.Holds b.places) :
    typeKey table' (σ.typeBinding b) = typeKey table b :=
  (carries.keyOf closed (keyOf_typeKey table b) inside).eq_typeKey.symm

/-- A run in one table is a run in the other, of the task with the new places, from and to the same drafts: what is
registered goes by keys, and they stay. -/
theorem Carries.resolves (carries : σ.Carries table table') (closed : table.Closed) {task : Task} {d e : Draft}
    {found : Found} (run : Resolves table task d found e) (inside : table.Holds task.starts) :
    Resolves table' (σ.task task) d found e := by
  -- every rule of the run is used again; only the one for places beyond the end cannot occur
  induction run with
  | inside known _ ih =>
    exact .inside (carries.types _ _ known) (ih (closed.types _ (List.mem_of_getElem? known)))
  | beyond dangling => exact absurd (inside _ (List.mem_singleton_self _)) (by simpa using dangling)
  | finished => exact .finished
  | next _ _ ihFirst ihOthers =>
    exact .next (ihFirst fun j h => inside j (List.mem_cons.mpr (.inl (List.mem_singleton.mp h))))
      (ihOthers fun j h => inside j (List.mem_cons_of_mem _ h))
  | unlinked => exact .unlinked
  | link _ _ ihFirst ihOthers =>
    exact .link (ihFirst fun j h => inside j (List.mem_cons.mpr (.inl (List.mem_singleton.mp h))))
      (ihOthers fun j h => inside j (List.mem_cons_of_mem _ h))
  | enclosed outer found _ ih =>
    obtain ⟨outer', found', same, -⟩ := carries.enclosing?_some inside found
    exact .enclosed outer' found' (same ▸ ih (closed.types _ outer.listed))
  | free free => exact .free (b := σ.typeBinding _) (carries.enclosing?_none inside free)
  | @parameterized b id erasure arguments _ _ _ kind _ _ ihErased ihApplied =>
    have erased : (σ.typeBinding b).erasure.toList = b.erasure.toList.map σ.type := Option.toList_map
    have applied : table.Holds b.typeArguments := fun j h =>
      inside j (TypeBinding.mem_places.mpr (.inr (.inr (.inr (.inr h)))))
    refine .parameterized (b := σ.typeBinding b) kind (erased ▸ ihErased fun j h => ?_) (ihApplied applied)
    exact inside j (TypeBinding.mem_places.mpr (.inr (.inr (.inr (.inl (Option.mem_toList.mp h))))))
  | @generic b id d kind =>
    rw [← carries.typeKey closed inside]
    exact .generic (b := σ.typeBinding b) kind
  | plain notParameterized notGeneric => exact .plain (b := σ.typeBinding _) notParameterized notGeneric
  | known known => exact .known ((carries.typeKey closed inside).symm ▸ known)
  | met fresh _ met ih =>
    have key := carries.typeKey closed inside
    exact .met (key.symm ▸ fresh) (ih inside) (key.symm ▸ met)
  | @made b c d e f g fresh _ unmet _ _ ihPlace ihLinks ihCompletion =>
    have key := carries.typeKey closed inside
    have start : Draft.started table' (σ.typeBinding b) c e = Draft.started table b c e := by
      unfold Draft.started
      rw [key]
      rfl
    have supertypes : (σ.typeBinding b).superclass.toList ++ (σ.typeBinding b).interfaces =
        (b.superclass.toList ++ b.interfaces).map σ.type := by
      rw [List.map_append, ← Option.toList_map]
      rfl
    have links := ihLinks fun j h => inside j <| TypeBinding.mem_places.mpr <| .inr <|
      (List.mem_append.mp h).imp Option.mem_toList.mp .inl
    refine .made (key.symm ▸ fresh) (ihPlace inside) (key.symm ▸ unmet) ?_ (ihCompletion inside)
    rw [supertypes, start]
    exact links

end Renumbering

namespace Draft

variable {σ : Renumbering} {ctx ctx' : Context} (carries : σ.Carries ctx.bindings ctx'.bindings)
  (closed : ctx.bindings.Closed)
include carries

theorem boundTypeText_renumber {i : TypeIndex} (inside : i < ctx.bindings.types.length) :
    boundTypeText ctx' (σ.type i) = boundTypeText ctx i := by
  have known := List.getElem?_eq_getElem inside
  unfold boundTypeText BindingTable.typeAt?
  rw [known, carries.types i _ known]
  rfl

include closed

theorem typeOfBinding_renumber {i : TypeIndex} (inside : i < ctx.bindings.types.length) :
    typeOfBinding ctx' (σ.type i) = typeOfBinding ctx i := by
  funext d
  have run := carries.resolves closed (resolveIndex_runs ctx.bindings i d) (List.forall_mem_singleton.mpr inside)
  obtain ⟨same, reached⟩ := Resolves.deterministic (resolveIndex_runs ctx'.bindings (σ.type i) d) run
  exact Prod.ext (Found.type.inj same) reached

theorem typeOfBinding?_renumber {i : Option TypeIndex} (inside : ∀ j, i = some j → j < ctx.bindings.types.length) :
    typeOfBinding? ctx' (i.map σ.type) = typeOfBinding? ctx i := by
  cases i with
  | none => rfl
  | some i => exact typeOfBinding_renumber carries closed (inside i rfl)

theorem returnedType_renumber {b : MethodBinding} (inside : ctx.bindings.Holds b.places) :
    returnedType ctx' (σ.methodBinding b) = returnedType ctx b := by
  have moved : (σ.methodBinding b).returnType = b.returnType.map σ.type := rfl
  unfold returnedType
  rw [moved]
  cases returned : b.returnType with
  | none => rfl
  | some i =>
    have listed := inside i (MethodBinding.mem_places.mpr (.inr (.inr returned)))
    have known := List.getElem?_eq_getElem listed
    simp only [Option.map_some, BindingTable.typeAt?, known, carries.types i _ known,
      typeOfBinding_renumber carries closed listed]
    rfl

theorem methodOfResolved_renumber {b : MethodBinding} (inside : ctx.bindings.Holds b.places)
    (owner : TypeId) : methodOfResolved ctx' (σ.methodBinding b) owner = methodOfResolved ctx b owner := by
  have texts : (σ.methodBinding b).parameterTypes.map (boundTypeText ctx') =
      b.parameterTypes.map (boundTypeText ctx) := by
    refine List.map_map.trans (List.map_congr_left fun i h => ?_)
    exact boundTypeText_renumber carries (inside i (MethodBinding.mem_places.mpr (.inr (.inl h))))
  unfold methodOfResolved
  rw [texts, returnedType_renumber carries closed inside]
  rfl

theorem methodOfBinding_renumber {i : MethodIndex} {b : MethodBinding}
    (known : ctx.bindings.methods[i]? = some b) : methodOfBinding ctx' (σ.method i) = methodOfBinding ctx i := by
  have inside := closed.methods b (List.mem_of_getElem? known)
  unfold methodOfBinding BindingTable.methodAt?
  rw [known, carries.methods i b known]
  simp only [methodOfResolved_renumber carries closed inside]
  have owner := typeOfBinding?_renumber carries closed fun j h => inside j (MethodBinding.mem_places.mpr (.inl h))
  exact congrArg (· >>= methodOfResolved ctx b) owner

theorem attributeOfBinding_renumber {b : VariableBinding} (inside : ctx.bindings.Holds b.places) :
    attributeOfBinding ctx' (σ.variableBinding b) = attributeOfBinding ctx b := by
  have within : attributeWithin ctx' (σ.variableBinding b) = attributeWithin ctx b := by
    have declared := typeOfBinding?_renumber carries closed fun j h =>
      inside j (VariableBinding.mem_places.mpr (.inr h))
    funext parent
    unfold attributeWithin
    rw [← declared]
    rfl
  have moved : (σ.variableBinding b).declaringClass = b.declaringClass.map σ.type := rfl
  rw [attributeOfBinding_eq, attributeOfBinding_eq, within, moved]
  cases declaring : b.declaringClass with
  | none => rfl
  | some i =>
    have listed := inside i (VariableBinding.mem_places.mpr (.inl declaring))
    exact congrArg (· >>= attributeWithin ctx b) (typeOfBinding_renumber carries closed listed)

end Draft

open Java.BindingTable (found?)

/-- Entries that are found at their new places whenever they are found at the old ones. -/
theorem Java.BindingTable.found?_renumber {entries entries' : List α} {R : Nat × α → Nat × α → Prop} {f : Nat → Nat}
    {g : α → α} (moved : ∀ i b, entries[i]? = some b → entries'[f i]? = some (g b) ∧ R (i, b) (f i, g b))
    (i : Option Nat) :
    Option.Rel R (found? entries i) (found? entries' ((i.filter (· < entries.length)).map f)) := by
  rw [← found?_filter entries i]
  generalize kept : i.filter (· < entries.length) = j
  cases j with
  | none => exact .none
  | some j =>
    have inside : j < entries.length := by simpa using (Option.filter_eq_some_iff.mp kept).2
    have known := List.getElem?_eq_getElem inside
    obtain ⟨known', same⟩ := moved j _ known
    simp only [found?, Option.map_some, Option.bind_eq_bind, Option.bind_some, known, known']
    exact .some same

theorem Renumbering.Carries.preserves {σ : Renumbering} {table table' : BindingTable} (carries : σ.Carries table table')
    (closed : table.Closed) (keying : AttributeKeying) :
    (σ.rebinding.comp (.within table)).Preserves { bindings := table, keying } { bindings := table', keying } where
  keying := rfl
  types := Java.BindingTable.found?_renumber fun i b known => ⟨carries.types i b known,
    Draft.typeOfBinding_renumber carries closed (List.getElem?_eq_some_iff.mp known).1, rfl, rfl, rfl⟩
  methods := Java.BindingTable.found?_renumber fun i b known => ⟨carries.methods i b known,
    Draft.methodOfBinding_renumber carries closed known,
    Draft.methodOfResolved_renumber carries closed (closed.methods b (List.mem_of_getElem? known))⟩
  vars := Java.BindingTable.found?_renumber fun i b known => ⟨carries.vars i b known,
    Draft.attributeOfBinding_renumber carries closed (closed.vars b (List.mem_of_getElem? known)), rfl, rfl, rfl⟩

/-- Places are names only. In a project in which nothing refers beyond the end of the table, the entries of the table
may be moved to other places, and other entries added, as long as every reference is moved along: the model and its
text stay the same, whichever way attributes are keyed. Entries may even be moved to one place, if they are then
one. -/
theorem buildModel_renumber {project project' : Project} (closed : project.Closed) {σ : Renumbering}
    (moves : σ.Moves project project') (keying : AttributeKeying) :
    buildModel project' keying = buildModel project keying ∧
      (buildModel project' keying).mse = (buildModel project keying).mse := by
  -- as no place is beyond the end, leaving such places out first makes no difference
  have units : project'.units = project.units.map (σ.rebinding.comp (.within project.bindings)).unit := by
    rw [moves.units]
    nth_rewrite 1 [← closed.units]
    refine List.map_map.trans (List.map_congr_left fun u _ => ?_)
    exact (Rebinding.unit_comp _ _ u).symm
  have same : buildModel project' keying = buildModel project keying := by
    have rebound := buildModel_rebind (moves.bindings.preserves closed.bindings keying) project.units
    rw [← units] at rebound
    exact rebound
  exact ⟨same, congrArg Repository.mse same⟩

/-- A class with a member class, and a field and a method that speak of it. -/
def linkedProject : Project where
  bindings :=
    { types := [.inPackage "p" "A",
        { qualifiedName := "p.A.B", name := "B", package := some "p", declaringClass := some 0, superclass := some 0 }]
      methods := [{ name := "m", declaringClass := some 0, parameterTypes := [1], returnType := some 1 }]
      vars := [{ name := "f", kind := .field, declaringClass := some 0, type := some 1 }] }
  units := [{ package := some "p", types := [⟨"A", .classType, some 0, [], none, [],
    [.field ⟨⟨.simple "B", some 1⟩, [], [⟨"f", some 0, none⟩]⟩,
      .method ⟨"m", some 0, false, some ⟨.simple "B", some 1⟩, [], [], [.returned (some (.name "f" (some 0)))]⟩]⟩] }]

/-- The same with its two types exchanged, between another type of the same name and one that refers to nothing. -/
def movedProject : Project where
  bindings :=
    { types := [.inPackage "p" "A",
        { qualifiedName := "p.A.B", name := "B", package := some "p", declaringClass := some 2, superclass := some 2 },
        .inPackage "p" "A", { qualifiedName := "q.C", name := "C", superclass := some 9 }]
      methods := [{ name := "m" },
        { name := "m", declaringClass := some 2, parameterTypes := [1], returnType := some 1 }]
      vars := [{ name := "f", kind := .parameter },
        { name := "f", kind := .field, declaringClass := some 2, type := some 1 }] }
  units := [{ package := some "p", types := [⟨"A", .classType, some 2, [], none, [],
    [.field ⟨⟨.simple "B", some 1⟩, [], [⟨"f", some 1, none⟩]⟩,
      .method ⟨"m", some 1, false, some ⟨.simple "B", some 1⟩, [], [], [.returned (some (.name "f" (some 1)))]⟩]⟩] }]

def exchange : Renumbering where
  type i := if i < 2 then 2 - i else i + 1
  method i := i + 1
  vars i := i + 1

theorem linkedProject_closed : linkedProject.Closed := ⟨⟨by decide, by decide, by decide⟩, rfl⟩

theorem exchange_moves : exchange.Moves linkedProject movedProject := by
  refine ⟨⟨fun i b known => ?_, fun i b known => ?_, fun i b known => ?_⟩, rfl⟩
  · match i with
    | 0 | 1 => cases known; rfl
    | i + 2 => cases known
  all_goals
    match i with
    | 0 => cases known; rfl
    | i + 1 => cases known

theorem buildModel_renumber_exchange :
    linkedProject.Closed ∧ exchange.Moves linkedProject movedProject ∧
      buildModel movedProject .keyed = buildModel linkedProject .keyed ∧
      (buildModel movedProject .keyed).mse = (buildModel linkedProject .keyed).mse :=
  ⟨linkedProject_closed, exchange_moves, buildModel_renumber linkedProject_closed exchange_moves .keyed⟩

end Famix
