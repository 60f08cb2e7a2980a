import Famix.Proofs.Nesting

/-!
What a model says of the bodies of methods. Every call, every bound name, every local variable and every initializer
of a source tree has exactly one element of its own, in the order read, and that element belongs to the method whose
body it is in.
-/
namespace Famix

open Java (Expr VariableIndex Project methodSignature)

namespace Mark

/-- What a call says: the name of the method, or of the type of which an instance is made, and the arguments. -/
def signature? : Mark → Option String
  | .call (.invocation _ name arguments _) => some (methodSignature name (Expr.texts arguments))
  | .call (.creation t arguments _ _) => some (methodSignature t.written.text (Expr.texts arguments))
  | _ => none

theorem signature?_call (e : Expr) : (call e).signature? = e.callSignature := by
  cases e <;> rfl

/-- Whether a name is written; only a name whose binding is in the table is accessed. -/
def writes? (ctx : Context) : Mark → Option Bool
  | .mention _ (some i) assigned => if i < ctx.bindings.vars.length then some assigned else none
  | _ => none

theorem writes?_mention (ctx : Context) (identifier : String) (binding : Option VariableIndex) (assigned : Bool) :
    (mention identifier binding assigned).writes? ctx =
      (Draft.namedBinding? ctx (.name identifier binding)).map fun _ => assigned := by
  cases binding with
  | none => rfl
  | some i =>
    change (if i < ctx.bindings.vars.length then some assigned else none) =
      (ctx.bindings.vars[i]?).map fun _ => assigned
    split
    · next inside => rw [List.getElem?_eq_getElem inside, Option.map_some]
    · next beyond => rw [List.getElem?_eq_none (Nat.le_of_not_lt beyond), Option.map_none]

def localName? : Mark → Option String
  | .localVariable fragment _ => some fragment.name
  | _ => none

def isInitializer : Mark → Bool
  | .initializer _ => true
  | _ => false

/-- A mark that has no edge and no method of its own to add. -/
def Silent (ctx : Context) (m : Mark) : Prop :=
  m.signature? = none ∧ m.writes? ctx = none ∧ m.localName? = none ∧ m.isInitializer = false

end Mark

/-- What there is in the order made: the signatures of the invocations, whether the accesses write, and the names of
the local variables, each with the method it belongs to, and the methods of initializers. -/
@[ext] structure Edges where
  invocations : List (String × Option MethodId) := []
  accesses : List (Bool × Option MethodId) := []
  locals : List (String × Option MethodId) := []
  initializers : List MethodId := []

def Repository.edges (r : Repository) : Edges where
  invocations := r.invocations.toList.map fun i => (i.signature, i.sender)
  accesses := r.accesses.toList.map fun a => (a.isWrite, a.accessor)
  locals := r.localVariables.toList.map fun v => (v.name, v.parent)
  initializers := (r.methods.toList.filter (·.kind = .initializer)).map (·.id)

/-- What the source says there is to be. -/
def Mark.edges (ctx : Context) (marks : List Mark) : Edges where
  invocations := (places marks).filterMap fun p => p.mark.signature?.map (·, p.method? ctx)
  accesses := (places marks).filterMap fun p => (p.mark.writes? ctx).map (·, p.method? ctx)
  locals := (places marks).filterMap fun p => p.mark.localName?.map (·, p.method? ctx)
  initializers := ((places marks).filter (·.mark.isInitializer)).filterMap (·.declared? ctx)

namespace Edges

/-- What one more mark adds, where `method` is the method whose body it is in. -/
def add (ctx : Context) (edges : Edges) (m : Mark) (method declared : Option MethodId) : Edges where
  invocations := edges.invocations ++ (m.signature?.map (·, method)).toList
  accesses := edges.accesses ++ ((m.writes? ctx).map (·, method)).toList
  locals := edges.locals ++ (m.localName?.map (·, method)).toList
  initializers := edges.initializers ++ if m.isInitializer then declared.toList else []

theorem add_silent {ctx : Context} {m : Mark} (silent : m.Silent ctx) (edges : Edges)
    (method declared : Option MethodId) : edges.add ctx m method declared = edges := by
  obtain ⟨call, name, fragment, block⟩ := silent
  simp [add, call, name, fragment, block]

end Edges

theorem Mark.edges_concat (ctx : Context) (marks : List Mark) (m : Mark) :
    edges ctx (marks ++ [m]) =
      (edges ctx marks).add ctx m (Place.method? ctx ⟨marks, m⟩) (Place.declared? ctx ⟨marks, m⟩) := by
  have filtered : ∀ {β : Type} (f : Place → Option β),
      (places (marks ++ [m])).filterMap f = (places marks).filterMap f ++ (f ⟨marks, m⟩).toList := by
    intro β f
    rw [places_concat, List.filterMap_append]
    cases h : f ⟨marks, m⟩ <;> simp [h]
  unfold edges Edges.add
  simp only [filtered]
  congr 1
  rw [places_concat, List.filter_append, List.filterMap_append]
  cases block : m.isInitializer with
  | false => simp [block]
  | true => cases declared : Place.declared? ctx ⟨marks, m⟩ <;> simp [block, declared]

theorem map_modify {α β : Type} (xs : Array α) (i : Nat) (f : α → α) (g : α → β) (same : ∀ a, g (f a) = g a) :
    (xs.modify i f).toList.map g = xs.toList.map g := by
  have mapped : (xs.modify i f).map g = xs.map g := by
    ext j below above
    · simp
    · rw [Array.getElem_map, Array.getElem_map, Array.getElem_modify]
      split <;> simp [same]
  rw [← Array.toList_map, mapped, Array.toList_map]

/-- A change to what was added last. -/
theorem modify_push {α : Type} (xs : Array α) (a : α) (f : α → α) :
    (xs.push a).modify xs.size f = xs.push (f a) := by
  ext j below above
  · simp
  · rw [Array.getElem_modify, Array.getElem_push, Array.getElem_push]
    split
    · next last => simp [← last]
    · next other =>
      have inside : j < xs.size := by
        rw [Array.size_push] at above
        omega
      rw [dif_pos inside, dif_pos inside]

/-- The methods of initializers, as a list that depends on the kinds and ids of the methods alone. -/
theorem initializers_eq (methods : Array MethodEntity) :
    (methods.toList.filter (·.kind = .initializer)).map (·.id) =
      ((methods.toList.map fun m => (m.kind, m.id)).filter (·.1 = .initializer)).map (·.2) := by
  rw [List.filter_map, List.map_map]
  rfl

theorem edges_updateMethod (r : Repository) (id : MethodId) (f : MethodEntity → MethodEntity)
    (same : ∀ m, ((f m).kind, (f m).id) = (m.kind, m.id)) : (r.updateMethod id f).edges = r.edges := by
  have methods := map_modify r.methods id.index f (fun m => (m.kind, m.id)) same
  unfold Repository.edges Repository.updateMethod
  simp only [initializers_eq, methods]

namespace Change

/-- What the source refers to or declares adds nothing to the bodies of methods. -/
theorem Declares.edges {c : Change} (declares : c.Declares) (d : Draft) :
    (c.apply d).repository.edges = d.repository.edges := by
  have result := c.result d
  generalize c.apply d = e at result ⊢
  cases result with
  | known | space | type | field | parameter => rfl
  | @method key name signature parent isConstructor fresh =>
    unfold Repository.edges Draft.addMethod Repository.insertMethod
    cases isConstructor <;> simp [Draft.methodKind]
  | direct c direct =>
    cases c with
    | space | type | method | field | parameter => cases direct
    | initializer | localVariable | invocation | access | written => exact declares.elim
    | methodBound | methodTyped | methodDeclared => exact edges_updateMethod _ _ _ fun _ => rfl
    | inheritance | typeModifiers | typeKind | typeOpened | typeDeclared | attributeDeclared | remember => rfl

theorem edges_initializer (d : Draft) (parent : TypeId) (modifiers : ModifierSet) :
    ((initializer parent modifiers).apply d).repository.edges =
      { d.repository.edges with
        initializers := d.repository.edges.initializers ++ [⟨d.repository.methods.size⟩] } := by
  simp [apply, Draft.edit, Repository.insertMethod, Repository.edges]

theorem edges_localVariable (d : Draft) (name : String) (parent : Option MethodId) (declared : TypeId) :
    ((localVariable name parent declared).apply d).repository.edges =
      { d.repository.edges with locals := d.repository.edges.locals ++ [(name, parent)] } := by
  simp [apply, Draft.edit, Repository.insertLocalVariable, Repository.edges, NamedEntity.stub]

theorem edges_invocation (d : Draft) (sender : Option MethodId) (candidate : MethodId) (signature : String) :
    ((invocation sender candidate signature).apply d).repository.edges =
      { d.repository.edges with invocations := d.repository.edges.invocations ++ [(signature, sender)] } := by
  simp [apply, Draft.edit, Repository.insertInvocation, Repository.edges]

theorem edges_access (d : Draft) (accessor : Option MethodId) (target : Option VariableRef) :
    ((access accessor target).apply d).repository.edges =
      { d.repository.edges with accesses := d.repository.edges.accesses ++ [(false, accessor)] } := by
  simp [apply, Draft.edit, Repository.insertAccess, Repository.edges]

theorem edges_written (d : Draft) (accessor : Option MethodId) (target : Option VariableRef) :
    ((written ⟨d.repository.accesses.size⟩).apply ((access accessor target).apply d)).repository.edges =
      { d.repository.edges with accesses := d.repository.edges.accesses ++ [(true, accessor)] } := by
  simp [apply, Draft.edit, Repository.insertAccess, Repository.updateAccess, Repository.edges, modify_push]

end Change

namespace Draft

theorem BuildsOnly.edges {f : Drafting α} (builds : BuildsOnly Change.Declares f) (d : Draft) :
    (f d).2.repository.edges = d.repository.edges :=
  (builds.path d).invariant (P := fun e => e.repository.edges = d.repository.edges) rfl
    fun _ e declares same => (declares.edges e).trans same

variable (ctx : Context)

/-- A bound name is accessed once, by the method that is open. -/
theorem mention_edges {e : Expr} {b : Java.VariableBinding} (bound : namedBinding? ctx e = some b) (assigned : Bool)
    (d : Draft) : (mention ctx e assigned d).2.repository.edges =
      { d.repository.edges with
        accesses := d.repository.edges.accesses ++ [(assigned, d.scope.currentMethod)] } := by
  -- what the name reaches may be built first, which adds no edge and opens nothing
  have reached := (builds_variableOfBinding ctx b).declares.edges d
  have scope := (builds_variableOfBinding ctx b).scope d
  have accessed := accessExpr_of_some ctx bound d
  rw [← reached, ← scope]
  generalize variableOfBinding ctx b d = found at accessed
  cases assigned with
  | false =>
    rw [mention_read, accessed]
    exact Change.edges_access found.2 found.2.scope.currentMethod found.1
  | true =>
    rw [mention_write ctx (by rw [accessed]), accessed]
    exact Change.edges_written found.2 found.2.scope.currentMethod found.1

theorem invoke_edges (binding : Option Java.MethodIndex) (signature : String) (d : Draft) :
    (invoke ctx binding signature d).2.repository.edges =
      { d.repository.edges with
        invocations := d.repository.edges.invocations ++ [(signature, d.scope.currentMethod)] } := by
  have called : ∀ {callee : Drafting MethodId}, BuildsOnly Change.Refers callee →
      ((do let candidate ← callee
           let sender ← currentMethod
           insert (Repository.insertInvocation sender [candidate] signature)) d).2.repository.edges =
        { d.repository.edges with
          invocations := d.repository.edges.invocations ++ [(signature, d.scope.currentMethod)] } := by
    intro callee builds
    rw [← builds.declares.edges d, ← builds.scope d]
    exact Change.edges_invocation (callee d).2 _ (callee d).1 signature
  unfold invoke
  cases ctx.bindings.resolveMethod binding signature with
  | resolved i b => exact called (builds_methodOfBinding ctx i)
  | unresolved signature => exact called (builds_unresolvedMethod signature)

theorem localVariable_edges (fragment : Java.Fragment) (t : Java.TypeRef) (d : Draft) :
    (localVariable ctx fragment t d).2.repository.edges =
      { d.repository.edges with
        locals := d.repository.edges.locals ++ [(fragment.name, d.scope.currentMethod)] } := by
  have typed := (builds_typeOfRef ctx t).declares.edges d
  have scope := (builds_typeOfRef ctx t).scope d
  rw [← typed, ← scope]
  exact Change.edges_localVariable (typeOfRef ctx t d).2 fragment.name _ (typeOfRef ctx t d).1

theorem initializerMethod_edges (decl : Java.InitializerDecl) (d : Draft) :
    (initializerMethod decl d).2.repository.edges =
      { d.repository.edges with
        initializers := d.repository.edges.initializers ++ [(initializerMethod decl d).1] } := by
  have owned := builds_ownerOrUnknown.declares.edges d
  rw [← owned]
  exact Change.edges_initializer (ownerOrUnknown d).2 (ownerOrUnknown d).1 _

end Draft

namespace Mark

variable (ctx : Context)

/-- A mark adds what is its own, and nothing else. -/
theorem act_edges (p : Place) :
    (p.mark.act ctx (p.draft ctx)).repository.edges =
      (p.draft ctx).repository.edges.add ctx p.mark (p.method? ctx) (p.declared? ctx) := by
  -- a mark without an edge builds only what is referred to or declared
  have silently : ∀ {α : Type} {f : Drafting α}, Draft.BuildsOnly Change.Declares f → p.mark.Silent ctx →
      (p.mark.prepare ctx (p.draft ctx)).2 = (f (p.draft ctx)).2 →
      (p.mark.prepare ctx (p.draft ctx)).2.repository.edges =
        (p.draft ctx).repository.edges.add ctx p.mark (p.method? ctx) (p.declared? ctx) := by
    intro α f builds silent prepares
    rw [prepares, builds.edges, Edges.add_silent silent]
  change (p.mark.prepare ctx (p.draft ctx)).2.repository.edges = _
  rcases p with ⟨before, _ | _ | _ | _ | _ | _ | _ | _ | _ | _⟩
  case package name => exact silently (Draft.builds_ensureNamespace name).declares ⟨rfl, rfl, rfl, rfl⟩ rfl
  case type decl => exact silently (Draft.builds_typeOfDecl ctx decl) ⟨rfl, rfl, rfl, rfl⟩ rfl
  case anonymous a t => exact silently (Draft.builds_typeOfAnonymous ctx a t) ⟨rfl, rfl, rfl, rfl⟩ rfl
  case method decl => exact silently (Draft.builds_methodWithParameters ctx decl) ⟨rfl, rfl, rfl, rfl⟩ rfl
  case close => exact silently (Draft.builds_pure ()) ⟨rfl, rfl, rfl, rfl⟩ rfl
  case field fragment decl =>
    have builds := (Draft.builds_attributeOfFragment ctx fragment decl).mono fun _ ok => ok.1
    exact silently builds ⟨rfl, rfl, rfl, rfl⟩ rfl
  case initializer decl =>
    refine (Draft.initializerMethod_edges decl _).trans ?_
    simp [Edges.add, signature?, writes?, localName?, isInitializer, Place.declared?]
  case localVariable fragment t =>
    refine (Draft.localVariable_edges ctx fragment t _).trans ?_
    rw [Place.currentMethod_draft]
    simp [Edges.add, signature?, writes?, localName?, isInitializer]
  case call e =>
    have prepares : ∀ d, (prepare ctx (.call e) d).2 = (Draft.invokeExpr ctx e d).2 := fun _ => rfl
    cases call : e.callSignature with
    | none =>
      refine silently (Draft.builds_pure ()) ⟨(signature?_call e).trans call, rfl, rfl, rfl⟩ ?_
      rw [prepares, Draft.invokeExpr, call]
      rfl
    | some signature =>
      rw [prepares, Draft.invokeExpr, call]
      refine (Draft.invoke_edges ctx (Draft.calledBinding e) signature _).trans ?_
      rw [Place.currentMethod_draft]
      simp [Edges.add, signature?_call, writes?, localName?, isInitializer, call]
  case mention identifier binding assigned =>
    cases bound : Draft.namedBinding? ctx (.name identifier binding) with
    | none =>
      have unread : writes? ctx (.mention identifier binding assigned) = none := by rw [writes?_mention, bound]; rfl
      exact silently (Draft.builds_pure ()) ⟨rfl, unread, rfl, rfl⟩ (Draft.mention_of_none ctx bound assigned _)
    | some b =>
      refine (Draft.mention_edges ctx bound assigned _).trans ?_
      rw [Place.currentMethod_draft]
      simp [Edges.add, signature?, writes?_mention, localName?, isInitializer, bound]

theorem actAll_edges (marks : List Mark) : (actAll ctx marks {}).repository.edges = edges ctx marks := by
  induction marks using List.reverseRecOn with
  | nil => rfl
  | append_singleton marks m ih =>
    rw [edges_concat, ← ih, actAll_append]
    exact act_edges ctx ⟨marks, m⟩

theorem declared?_of_initializer {p : Place} (block : p.mark.isInitializer) : (p.declared? ctx).isSome := by
  obtain ⟨before, mark⟩ := p
  cases mark with
  | initializer decl => rfl
  | _ => cases block

theorem length_initializers (marks : List Mark) :
    (edges ctx marks).initializers.length = marks.countP isInitializer := by
  have all : ∀ p ∈ (places marks).filter (·.mark.isInitializer), (p.declared? ctx).isSome :=
    fun p member => declared?_of_initializer ctx (List.mem_filter.mp member).2
  calc (edges ctx marks).initializers.length
      = ((places marks).filter (·.mark.isInitializer)).length := List.filterMap_length_eq_length.mpr all
    _ = ((places marks).map (·.mark)).countP isInitializer := by
        rw [List.countP_map, List.countP_eq_length_filter]
        rfl
    _ = marks.countP isInitializer := by rw [map_mark_places]

end Mark

theorem map_fst_places {α β : Type} (marks : List Mark) (own : Mark → Option α) (other : Place → β) :
    ((Mark.places marks).filterMap fun p => (own p.mark).map (·, other p)).map (·.1) = marks.filterMap own := by
  rw [List.map_filterMap]
  conv => rhs; rw [← Mark.map_mark_places marks, List.filterMap_map]
  congr 1
  funext p
  simp [Function.comp_def]

/-- In the order of the elements of each kind, the invocations are those of the calls, the accesses those of the names
whose binding is in the table, the local variables those declared, and the methods of initializers those of the
initializers, one for each; a name is written if it is what an assignment assigns to. Each belongs to the method whose
body it is in, if there is one, and whatever is opened on the way is closed again. -/
theorem buildModel_edges (project : Project) (keying : AttributeKeying) :
    let ctx : Context := { bindings := project.bindings, keying }
    let marks := readUnits project.units
    let model := buildModel project keying
    model.invocations.toList.map (·.signature) = marks.filterMap Mark.signature? ∧
      model.accesses.toList.map (·.isWrite) = marks.filterMap (Mark.writes? ctx) ∧
      model.localVariables.toList.map (·.name) = marks.filterMap Mark.localName? ∧
      (model.methods.filter (·.kind = .initializer)).size = marks.countP Mark.isInitializer ∧
      model.edges = Mark.edges ctx marks ∧
      Mark.unclosed marks = [] := by
  intro ctx marks model
  have built : model = (Mark.actAll ctx marks {}).repository := buildModel_reads project keying
  have edges : model.edges = Mark.edges ctx marks := by rw [built, Mark.actAll_edges]
  have closed : Mark.unclosed marks = [] := (Mark.nested_readUnits project.units).unclosed []
  refine ⟨?_, ?_, ?_, ?_, edges, closed⟩
  · calc model.invocations.toList.map (·.signature)
        = model.edges.invocations.map (·.1) := by simp [Repository.edges]
      _ = marks.filterMap Mark.signature? := by rw [edges]; exact map_fst_places marks _ _
  · calc model.accesses.toList.map (·.isWrite)
        = model.edges.accesses.map (·.1) := by simp [Repository.edges]
      _ = marks.filterMap (Mark.writes? ctx) := by rw [edges]; exact map_fst_places marks _ _
  · calc model.localVariables.toList.map (·.name)
        = model.edges.locals.map (·.1) := by simp [Repository.edges]
      _ = marks.filterMap Mark.localName? := by rw [edges]; exact map_fst_places marks _ _
  · calc (model.methods.filter (·.kind = .initializer)).size
        = model.edges.initializers.length := by simp [Repository.edges, ← Array.length_toList]
      _ = marks.countP Mark.isInitializer := by rw [edges, Mark.length_initializers]

end Famix
