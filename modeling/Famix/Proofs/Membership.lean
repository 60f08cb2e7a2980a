import Famix.Proofs.Frames
import Famix.Proofs.Population
import Famix.Proofs.Repetition

/-!
Members and the types that they belong to. Resolving types touches no member, so that a method is found or made by
one look at its key, the name of its owner with its signature.
-/
namespace Famix

open Java (MethodBinding MethodDecl TypeIndex methodSignature)

/-- A list is cut in one way at the last place where an item stands. -/
theorem append_cons_inj {a : α} {xs ys us vs : List α} (left : a ∉ us) (right : a ∉ vs)
    (same : xs ++ a :: us = ys ++ a :: vs) : xs = ys ∧ us = vs := by
  rcases List.append_eq_append_iff.mp same with ⟨w, rfl, rest⟩ | ⟨w, rfl, rest⟩
  · cases w with
    | nil => simpa using rest
    | cons b w =>
      obtain ⟨-, rfl⟩ := List.cons.inj rest
      exact absurd (by simp) left
  · cases w with
    | nil => simpa [eq_comm] using rest
    | cons b w =>
      obtain ⟨-, rfl⟩ := List.cons.inj rest
      exact absurd (by simp) right

theorem takeWhile_of_not_mem {c : Char} {xs : List Char} (absent : c ∉ xs) (ys : List Char) :
    (xs ++ ys).takeWhile (· ≠ c) = xs ++ ys.takeWhile (· ≠ c) :=
  List.takeWhile_append_of_pos fun _ mem => decide_eq_true fun same => absent (same ▸ mem)

theorem toList_dotted (outer name : String) : (outer ++ "." ++ name).toList = outer.toList ++ '.' :: name.toList := by
  simp

/-- Elements that are listed under their names are the same if their names are. -/
theorem Interner.Names.eq_of_name {t : Interner kind} {name : ElementId kind → String} {listed : ElementId kind → Prop}
    (h : t.Names name) (agree : t.Matches listed) {id other : ElementId kind} (here : listed id) (there : listed other)
    (same : name id = name other) : id = other := by
  obtain ⟨key, known, -⟩ := agree.named id here
  obtain ⟨otherKey, found, -⟩ := agree.named other there
  exact h.distinguishes key otherKey id other known found same

namespace Draft

/-- The members of `d`, under their keys, are those of `e`. -/
structure SameMembers (d e : Draft) : Prop where
  methods : e.repository.methods = d.repository.methods
  attributes : e.repository.attributes = d.repository.attributes
  methodKeys : e.registry.methods = d.registry.methods
  attributeKeys : e.registry.attributes = d.registry.attributes

theorem SameMembers.refl (d : Draft) : SameMembers d d := ⟨rfl, rfl, rfl, rfl⟩

theorem SameMembers.trans {d e f : Draft} (h : SameMembers d e) (k : SameMembers e f) : SameMembers d f :=
  ⟨k.methods.trans h.methods, k.attributes.trans h.attributes, k.methodKeys.trans h.methodKeys,
    k.attributeKeys.trans h.attributeKeys⟩

theorem SameMembers.change {own : TypeId → Prop} {c : Change} (ok : c.Resolving own) (d : Draft) :
    SameMembers d (c.apply d) := by
  have same := SameMembers.refl d
  have result := c.result d
  generalize c.apply d = e at result ⊢
  cases result with
  | known => exact same
  | space | type => exact { same with }
  | method | field | parameter => exact ok.elim
  | direct c direct =>
    cases c with
    | space | type => cases direct
    | inheritance | typeModifiers | typeKind | remember => exact { same with }
    | _ => exact ok.elim

theorem Path.sameMembers {own : TypeId → Prop} {d e : Draft} (path : Path (Change.Resolving own) d e) :
    SameMembers d e :=
  path.invariant (.refl d) fun _ e ok same => same.trans (.change ok e)

/-- A step that leaves the members as they are. -/
def SparesMembers (f : Drafting α) : Prop := ∀ d, SameMembers d (f d).2

theorem spares_pure (a : α) : SparesMembers (pure a) := .refl

theorem spares_resolving {f : Drafting α} (path : ∀ d, Path (Change.Resolving fun _ => True) d (f d).2) :
    SparesMembers f := fun d => (path d).sameMembers

theorem spares_unknownTypeNamed (name : String) : SparesMembers (unknownTypeNamed name) :=
  spares_resolving (unknownTypeNamed_path name)

theorem spares_unknownType : SparesMembers unknownType := spares_resolving unknownType_path

theorem spares_typeOfBinding (ctx : Context) (i : TypeIndex) : SparesMembers (typeOfBinding ctx i) := fun d =>
  (resolveIndex_runs ctx.bindings i d).path.sameMembers

theorem spares_typeOfRef (ctx : Context) (t : Java.TypeRef) : SparesMembers (typeOfRef ctx t) := by
  unfold typeOfRef
  split
  · exact spares_typeOfBinding ctx _
  · unfold typeOfExpr
    split
    · exact spares_unknownTypeNamed _
    · exact spares_unknownType

theorem spares_typeOfBinding? (ctx : Context) (i : Option TypeIndex) : SparesMembers (typeOfBinding? ctx i) := by
  cases i with
  | none => exact spares_unknownType
  | some i => exact spares_typeOfBinding ctx i

theorem spares_returnedType (ctx : Context) (b : MethodBinding) : SparesMembers (returnedType ctx b) := by
  unfold returnedType
  split
  · exact spares_pure none
  · split
    · split
      · exact spares_pure none
      · exact spares_typeOfBinding ctx _
    · exact spares_pure none

/-- The step gives the method of `owner` with a signature. It is found by its key if the key is known, and if not, it
is made and filed under it. -/
structure Introduces (owner : TypeId) (signature : String) (f : Drafting MethodId) (d : Draft) : Prop where
  known : ∀ id, d.registry.methods.get? (d.repository.typeName owner ++ "." ++ signature) = some id → f d = (id, d)
  registers : (f d).2.registry.methods.get? (d.repository.typeName owner ++ "." ++ signature) = some (f d).1
  path : Path (fun _ => True) d (f d).2
  made : d.registry.methods.get? (d.repository.typeName owner ++ "." ++ signature) = none →
    (f d).1 = ⟨d.repository.methods.size⟩ ∧ (f d).2.repository.methods.size = d.repository.methods.size + 1 ∧
      ∃ x, (f d).2.repository.method? (f d).1 = some x ∧ x.signature = signature ∧ x.parentType = owner

/-- At most one method is added, and if it is the one that is given, it is a method of the owner. -/
theorem Introduces.adds {owner : TypeId} {signature : String} {f : Drafting MethodId} {d : Draft}
    (h : Introduces owner signature f d) (leads : d.registry.methods.Leads d.repository) :
    (f d).2.repository.methods.size ≤ d.repository.methods.size + 1 ∧
      (d.repository.methods.size ≤ (f d).1.index → ∃ x, (f d).2.repository.method? (f d).1 = some x ∧
        x.signature = signature ∧ x.parentType = owner) := by
  cases looked : d.registry.methods.get? (d.repository.typeName owner ++ "." ++ signature) with
  | some id =>
    rw [h.known id looked]
    exact ⟨Nat.le_succ _, fun new => absurd (leads _ id looked) (Nat.not_lt_of_le new)⟩
  | none =>
    obtain ⟨-, size, made⟩ := h.made looked
    exact ⟨Nat.le_of_eq size, fun _ => made⟩

theorem introduces_interned {owner : TypeId} {signature name : String} {c : Bool}
    {f : Ensured .method → Drafting MethodId} (d : Draft) (existing : ∀ id, f (.existing id) = pure id)
    (created : ∀ id e, (f (.created id) e).1 = id ∧ Path (fun _ => True) e (f (.created id) e).2 ∧
      (f (.created id) e).2.repository.methods.size = e.repository.methods.size) :
    Introduces owner signature
      (do f (← internMethod (← memberKey owner signature) (.stub name) owner signature (methodKind c))) d := by
  generalize key_eq : d.repository.typeName owner ++ "." ++ signature = key
  have run : (do f (← internMethod (← memberKey owner signature) (.stub name) owner signature (methodKind c))) d =
      f (internMethod key (.stub name) owner signature (methodKind c) d).1
        (internMethod key (.stub name) owner signature (methodKind c) d).2 := key_eq ▸ rfl
  cases looked : d.registry.methods.get? key with
  | some id =>
    rw [internMethod_of_some looked, existing] at run
    refine ⟨fun other same => ?_, ?_, ?_, fun fresh => ?_⟩
    · rw [key_eq, looked] at same
      cases same
      exact run
    · rw [run, key_eq]
      exact looked
    · rw [run]
      exact .refl
    · rw [key_eq, looked] at fresh
      cases fresh
  | none =>
    rw [internMethod_of_none looked] at run
    obtain ⟨same, path, size⟩ := created ⟨d.repository.methods.size⟩
      (d.addMethod key (.stub name) owner signature (methodKind c))
    have added : Path (fun _ => True) d (d.addMethod key (.stub name) owner signature (methodKind c)) := by
      have step : Path (fun _ => True) d ((Change.method key name owner signature c).apply d) := .single _ trivial
      rw [Change.apply, internMethod_of_none looked] at step
      exact step
    refine ⟨fun other known => ?_, ?_, ?_, fun _ => ⟨?_, ?_, ?_⟩⟩
    · rw [key_eq, looked] at known
      cases known
    · rw [run, same, key_eq]
      exact path.registry_extends.methods _ _ (by simp [addMethod])
    · rw [run]
      exact added.trans path
    · rw [run]
      exact same
    · rw [run]
      exact size.trans (Array.size_push _)
    · rw [run, same]
      have known : (d.addMethod key (.stub name) owner signature (methodKind c)).repository.method?
          ⟨d.repository.methods.size⟩ = some { NamedEntity.stub name with
            id := ⟨d.repository.methods.size⟩, parentType := owner, signature, kind := methodKind c } :=
        Array.getElem?_push_size
      obtain ⟨x, kept, sign, parent⟩ := (Later.path path).keeps.methods _ _ known
      exact ⟨x, kept, sign, parent⟩

theorem introduces_methodOfResolved (ctx : Context) (b : MethodBinding) (owner : TypeId) (d : Draft) :
    Introduces owner (methodSignature b.name (b.parameterTypes.map (boundTypeText ctx)))
      (methodOfResolved ctx b owner) d := by
  refine introduces_interned d (fun _ => rfl) fun id e => ⟨rfl, ?_, ?_⟩
  · exact ((builds_returnedType ctx b).any.path e).step (.methodBound id b.modifiers (returnedType ctx b e).1) trivial
  · exact Array.size_modify.trans (congrArg Array.size (spares_returnedType ctx b e).methods)

theorem introduces_methodOfUnboundDecl (ctx : Context) (decl : MethodDecl) (owner : TypeId) (d : Draft) :
    Introduces owner (methodSignature decl.name (decl.parameters.map (writtenTypeText ctx ·.type)))
      (methodOfUnboundDecl ctx decl owner) d := by
  refine introduces_interned d (fun _ => rfl) fun id e => ?_
  have untyped : Path (fun _ => True) e ((Change.methodTyped id none).apply e) := .single _ trivial
  dsimp only
  cases decl.returnType with
  | none => exact ⟨rfl, untyped, Array.size_modify⟩
  | some t =>
    dsimp only
    split
    · exact ⟨rfl, untyped, Array.size_modify⟩
    · have typed := (builds_typeOfRef ctx t).any.path e
      refine ⟨rfl, typed.step (.methodTyped id (some (typeOfRef ctx t e).1)) trivial, ?_⟩
      exact Array.size_modify.trans (congrArg Array.size (spares_typeOfRef ctx t e).methods)

theorem methodOfBinding_eq {ctx : Context} {i : Java.MethodIndex} {m : MethodBinding} {c : TypeIndex}
    (listed : ctx.bindings.methods[i]? = some m) (declared : m.declaringClass = some c) (d : Draft) :
    methodOfBinding ctx i d = methodOfResolved ctx m (typeOfBinding ctx c d).1 (typeOfBinding ctx c d).2 := by
  simp only [methodOfBinding, Java.BindingTable.methodAt?, listed, declared]
  rfl

/-! Whom a member that is found by its key belongs to. -/

/-- A method of another type is filed under the key. -/
def MethodTaken (d : Draft) (owner : TypeId) (key : String) : Prop :=
  ∃ id x, d.registry.methods.get? key = some id ∧ d.repository.method? id = some x ∧ x.parentType ≠ owner

/-- A field of another type is filed under the key. -/
def FieldTaken (d : Draft) (owner : TypeId) (key : String) : Prop :=
  ∃ id a, d.registry.attributes.get? key = some id ∧ d.repository.attribute? id = some a ∧ a.parentType ≠ owner

/-- The type whose method is filed under the key. -/
def methodHolder? (d : Draft) (key : String) : Option TypeId :=
  (d.registry.methods.get? key).bind fun id => (d.repository.method? id).map (·.parentType)

/-- The type whose field is filed under the key. -/
def fieldHolder? (d : Draft) (key : String) : Option TypeId :=
  (d.registry.attributes.get? key).bind fun id => (d.repository.attribute? id).map (·.parentType)

theorem methodTaken_iff {d : Draft} {owner : TypeId} {key : String} :
    d.MethodTaken owner key ↔ (d.methodHolder? key).getD owner ≠ owner := by
  unfold MethodTaken methodHolder?
  cases d.registry.methods.get? key with
  | none => simp
  | some id => cases known : d.repository.method? id <;> simp [known]

theorem fieldTaken_iff {d : Draft} {owner : TypeId} {key : String} :
    d.FieldTaken owner key ↔ (d.fieldHolder? key).getD owner ≠ owner := by
  unfold FieldTaken fieldHolder?
  cases d.registry.attributes.get? key with
  | none => simp
  | some id => cases known : d.repository.attribute? id <;> simp [known]

/-- A method is that of the type that holds its key already, or else of its owner. -/
theorem Introduces.parent {owner : TypeId} {signature : String} {f : Drafting MethodId} {d : Draft}
    (h : Introduces owner signature f d) (leads : d.registry.methods.Leads d.repository) :
    ∃ x, (f d).2.repository.method? (f d).1 = some x ∧
      x.parentType = (d.methodHolder? (d.repository.typeName owner ++ "." ++ signature)).getD owner := by
  unfold methodHolder?
  cases looked : d.registry.methods.get? (d.repository.typeName owner ++ "." ++ signature) with
  | some id =>
    obtain ⟨x, known⟩ := (leads _ id looked).method
    rw [h.known id looked]
    exact ⟨x, known, by rw [Option.bind_some, known]; rfl⟩
  | none =>
    obtain ⟨-, -, x, known, -, parent⟩ := h.made looked
    exact ⟨x, known, parent⟩

theorem Introduces.belongs {owner : TypeId} {signature : String} {f : Drafting MethodId} {d : Draft}
    (h : Introduces owner signature f d) (leads : d.registry.methods.Leads d.repository) :
    ∃ x, (f d).2.repository.method? (f d).1 = some x ∧
      (x.parentType = owner ↔ ¬ d.MethodTaken owner (d.repository.typeName owner ++ "." ++ signature)) := by
  obtain ⟨x, known, parent⟩ := h.parent leads
  exact ⟨x, known, by rw [parent, methodTaken_iff, not_not]⟩

/-- A field is that of the type that holds its key already, or else of its parent. -/
theorem fieldUnder_parent {key name : String} {parent : TypeId} {type : Drafting TypeId} {d : Draft}
    (spares : SparesMembers type) (leads : d.registry.attributes.Leads d.repository) :
    ∃ a, (fieldUnder key name parent type d).2.repository.attribute? (fieldUnder key name parent type d).1 = some a ∧
      a.parentType = (d.fieldHolder? key).getD parent := by
  unfold fieldUnder fieldHolder?
  rw [get_bind_apply]
  cases looked : d.registry.attributes.get? key with
  | some id =>
    have known : d.repository.attribute? id = some _ := Array.getElem?_eq_getElem (leads _ id looked)
    exact ⟨_, known, by rw [Option.bind_some, known]; rfl⟩
  | none =>
    -- finding the type of the field leaves the key free
    have fresh : (type d).2.registry.attributes.get? key = none := by
      rw [(spares d).attributeKeys]
      exact looked
    have run : (Option.elim none (type >>= internAttribute key (.stub name) parent) pure) d =
        (⟨(type d).2.repository.attributes.size⟩, (type d).2.addAttribute key (.stub name) parent (type d).1) :=
      internAttribute_of_none fresh
    rw [run]
    exact ⟨_, Array.getElem?_push_size, rfl⟩

theorem fieldUnder_belongs {key name : String} {parent : TypeId} {type : Drafting TypeId} {d : Draft}
    (spares : SparesMembers type) (leads : d.registry.attributes.Leads d.repository) :
    ∃ a, (fieldUnder key name parent type d).2.repository.attribute? (fieldUnder key name parent type d).1 = some a ∧
      (a.parentType = parent ↔ ¬ d.FieldTaken parent key) := by
  obtain ⟨a, known, own⟩ := fieldUnder_parent spares leads
  exact ⟨a, known, by rw [own, fieldTaken_iff, not_not]⟩

theorem attributeOfBinding_declared {ctx : Context} {b : Java.VariableBinding} {c : TypeIndex}
    (declared : b.declaringClass = some c) (d : Draft) : attributeOfBinding ctx b d =
      fieldUnder ((typeOfBinding ctx c d).2.repository.typeName (typeOfBinding ctx c d).1 ++ "." ++ b.name) b.name
        (typeOfBinding ctx c d).1 (typeOfBinding? ctx b.type) (typeOfBinding ctx c d).2 := by
  rw [attributeOfBinding_eq, declared]
  rfl

end Draft

/-- It can be told from the name of a member where the name of its type ends: no type has a parenthesis in its name,
and no field a dot; nor has a method, up to its parameters. -/
structure Repository.PlainNames (r : Repository) : Prop where
  types : ∀ id : TypeId, r.Holds id.element → '(' ∉ (r.typeName id).toList
  methods : ∀ id m, r.method? id = some m → '.' ∉ m.signature.toList.takeWhile (· ≠ '(')
  attributes : ∀ id a, r.attribute? id = some a → '.' ∉ a.name.toList

theorem Repository.plainNames_iff {r : Repository} : r.PlainNames ↔
    (∀ i < r.types.size, '(' ∉ (r.typeName ⟨i⟩).toList) ∧
      (∀ m ∈ r.methods.toList, '.' ∉ m.signature.toList.takeWhile (· ≠ '(')) ∧
      ∀ a ∈ r.attributes.toList, '.' ∉ a.name.toList := by
  constructor
  · intro h
    refine ⟨fun i there => h.types ⟨i⟩ there, fun m listed => ?_, fun a listed => ?_⟩
    · obtain ⟨i, known⟩ := Array.mem_iff_getElem?.mp (Array.mem_toList_iff.mp listed)
      exact h.methods ⟨i⟩ m known
    · obtain ⟨i, known⟩ := Array.mem_iff_getElem?.mp (Array.mem_toList_iff.mp listed)
      exact h.attributes ⟨i⟩ a known
  · rintro ⟨types, methods, attributes⟩
    refine ⟨fun id there => types id.index there, fun id m known => ?_, fun id a known => ?_⟩
    · exact methods m (Array.mem_toList_iff.mpr (Array.mem_of_getElem? known))
    · exact attributes a (Array.mem_toList_iff.mpr (Array.mem_of_getElem? known))

instance (r : Repository) : Decidable r.PlainNames := decidable_of_iff _ Repository.plainNames_iff.symm

namespace Draft

section Plain

variable {d : Draft} {owner : TypeId} (sound : Sound .names d) (agree : d.registry.Matches d.repository)
  (plain : d.repository.PlainNames) (there : Present owner d)

include sound agree plain there

theorem not_methodTaken {name : String} (dotless : '.' ∉ name.toList) (open_ : '(' ∉ name.toList)
    (texts : List String) :
    ¬ d.MethodTaken owner (d.repository.typeName owner ++ "." ++ methodSignature name texts) := by
  rintro ⟨id, x, known, found, apart⟩
  have named := sound.named trivial
  have parent := (sound.sited.rooted.method_parent found).holds
  have whole : d.repository.typeName x.parentType ++ "." ++ x.signature =
      d.repository.typeName owner ++ "." ++ methodSignature name texts := by
    rw [← named.keys.methods _ id known, sound.sited.rooted.methodName_eq found,
      joinName_of_ne (named.nonempty _ parent)]
  -- up to the first parenthesis stand the name of the type, a dot, and the name of the method
  have upTo : ∀ {outer : TypeId} (_ : d.repository.Holds outer.element) (rest : String),
      (d.repository.typeName outer ++ "." ++ rest).toList.takeWhile (· ≠ '(') =
        (d.repository.typeName outer).toList ++ '.' :: rest.toList.takeWhile (· ≠ '(') := by
    intro outer held rest
    rw [toList_dotted, takeWhile_of_not_mem (plain.types outer held)]
    rfl
  have own : (methodSignature name texts).toList.takeWhile (· ≠ '(') = name.toList := by
    rw [methodSignature, String.toList_append, String.toList_append, String.toList_append, List.append_assoc,
      List.append_assoc, takeWhile_of_not_mem open_]
    exact List.append_nil _
  have cut := congrArg (fun s => s.toList.takeWhile (· ≠ '(')) whole
  rw [upTo parent, upTo there, own] at cut
  have same := (append_cons_inj (plain.methods id x found) dotless cut).1
  exact apart (named.keys.types.eq_of_name agree.types parent there (String.toList_inj.mp same))

theorem not_fieldTaken {name : String} (dotless : '.' ∉ name.toList) :
    ¬ d.FieldTaken owner (d.repository.typeName owner ++ "." ++ name) := by
  rintro ⟨id, a, known, found, apart⟩
  have named := sound.named trivial
  have parent := named.owned.owners id.index a found
  have whole : d.repository.typeName a.parentType ++ "." ++ a.name =
      d.repository.typeName owner ++ "." ++ name := by
    rw [← named.keys.attributes _ id known, Repository.attributeName_eq found,
      joinName_of_ne (named.nonempty _ parent)]
  have texts := congrArg String.toList whole
  rw [toList_dotted, toList_dotted] at texts
  have same := (append_cons_inj (plain.attributes id a found) dotless texts).1
  exact apart (named.keys.types.eq_of_name agree.types parent there (String.toList_inj.mp same))

end Plain

end Draft

namespace Operation

open Draft (Sound)

/-- Whether a member of the table comes to belong to its declaring class. After any admissible history, the method of a
binding belongs to the type of the class that declares it exactly if no method of another type is filed under the name
that it has there, and a field likewise. Where names are consistent, fields are filed under their own names and names
are plain, there never is one. -/
theorem members_belong (ctx : Context) (history : List Operation) (fits : Admissible .bare ctx history {})
    (c : TypeIndex) :
    let before := applyAll ctx history {}
    let owner := (Draft.typeOfBinding ctx c before).1
    let resolved := (Draft.typeOfBinding ctx c before).2
    let key name := resolved.repository.typeName owner ++ "." ++ name
    (∀ i m, ctx.bindings.methods[i]? = some m → m.declaringClass = some c →
      ∃ x, (Draft.methodOfBinding ctx i before).2.repository.method? (Draft.methodOfBinding ctx i before).1 = some x ∧
        (x.parentType = owner ↔ ¬ resolved.MethodTaken owner
          (key (methodSignature m.name (m.parameterTypes.map (Draft.boundTypeText ctx)))))) ∧
    (∀ b : Java.VariableBinding, b.declaringClass = some c →
      ∃ a, (Draft.attributeOfBinding ctx b before).2.repository.attribute?
          (Draft.attributeOfBinding ctx b before).1 = some a ∧
        (a.parentType = owner ↔ ¬ resolved.FieldTaken owner (key b.name))) ∧
    (NamesConsistent ctx.bindings → ctx.keying = .keyed → Admissible .names ctx history {} →
      resolved.repository.PlainNames →
      (∀ name texts, '.' ∉ name.toList → '(' ∉ name.toList →
        ¬ resolved.MethodTaken owner (key (methodSignature name texts))) ∧
      ∀ name, '.' ∉ name.toList → ¬ resolved.FieldTaken owner (key name)) := by
  intro before owner resolved key
  have kept := Promises.bare_keeps ctx
  have sound : Sound .bare before := sound_applyAll kept history (sound_empty .bare) fits
  have after : Sound .bare resolved := (Draft.achieves_typeOfBinding kept sound c).walk.sound sound
  refine ⟨fun i m listed declared => ?_, fun b declared => ?_, fun consistent keyed names plain => ?_⟩
  · rw [Draft.methodOfBinding_eq listed declared]
    exact (Draft.introduces_methodOfResolved ctx m owner resolved).belongs after.sited.known.methods
  · rw [Draft.attributeOfBinding_declared declared]
    exact Draft.fieldUnder_belongs (Draft.spares_typeOfBinding? ctx b.type) after.sited.known.attributes
  · have kept : ctx.Keeps .names := fun _ => ⟨consistent, keyed⟩
    have named : Sound .names before := sound_applyAll kept history (sound_empty .names) names
    obtain ⟨walk, there⟩ := Draft.achieves_typeOfBinding kept named c
    have agree : resolved.registry.Matches resolved.repository :=
      (Draft.resolveIndex_runs ctx.bindings c before).path.agree (applyAll_agree ctx history .empty)
    exact ⟨fun name texts dotless open_ =>
        Draft.not_methodTaken (walk.sound named) agree plain there dotless open_ texts,
      fun name => Draft.not_fieldTaken (walk.sound named) agree plain there⟩

/-- A class with a method that takes and returns the class. -/
def selfContext : Context where
  bindings := {
    types := [.inPackage "p" "A"]
    methods := [{ name := "m", declaringClass := some 0, parameterTypes := [0], returnType := some 0 }] }

/-- The class is declared without a binding, and is open. -/
def selfHistory : List Operation :=
  [.ensureNamespace "p", .enter (.ns ⟨0⟩), .typeOfDecl ⟨"A", .classType, none, [], none, [], []⟩, .enter (.type ⟨0⟩)]

def selfDecl : MethodDecl where
  name := "m"
  binding := none
  isConstructor := false
  returnType := none
  parameters := [{ name := "a", type := { written := .simple "A", binding := some 0 } }]
  modifiers := []
  body := []

theorem selfHistory_admissible : Admissible .bare selfContext selfHistory {} := by
  refine ⟨trivial, ?_, False.elim, ?_, trivial⟩
  all_goals
    change 0 < _
    decide +kernel

/-- The class with its method, found by a declaration. -/
def selfMembers : List Operation := selfHistory ++ [.methodOfDecl selfDecl]

theorem selfMembers_admissible : Admissible .names selfContext selfMembers {} := by
  refine ⟨trivial, ?_, fun _ => by decide, ?_, trivial, trivial⟩
  all_goals
    change 0 < _
    decide +kernel

theorem selfContext_consistent : NamesConsistent selfContext.bindings := by decide +kernel

theorem typeOfBinding_selfMembers : Draft.typeOfBinding selfContext 0 (applyAll selfContext selfMembers {}) =
    (⟨0⟩, applyAll selfContext selfMembers {}) :=
  Draft.typeOfBinding_of_run (.inside rfl (.known (by decide +kernel)))

theorem selfMembers_plain : (applyAll selfContext selfMembers {}).repository.PlainNames := by decide +kernel

theorem members_belong_self :
    let before := applyAll selfContext selfMembers {}
    (∃ x, (Draft.methodOfBinding selfContext 0 before).2.repository.method?
        (Draft.methodOfBinding selfContext 0 before).1 = some x ∧ x.parentType = ⟨0⟩) ∧
      ∃ a, (Draft.attributeOfBinding selfContext ⟨"f", .field, some 0, none, []⟩ before).2.repository.attribute?
        (Draft.attributeOfBinding selfContext ⟨"f", .field, some 0, none, []⟩ before).1 = some a ∧
          a.parentType = ⟨0⟩ := by
  intro before
  obtain ⟨method, field, free⟩ := members_belong selfContext selfMembers selfMembers_admissible.bare 0
  obtain ⟨x, known, own⟩ := method 0 _ rfl rfl
  obtain ⟨a, found, also⟩ := field ⟨"f", .field, some 0, none, []⟩ rfl
  rw [typeOfBinding_selfMembers] at own also free
  obtain ⟨methods, fields⟩ := free selfContext_consistent rfl selfMembers_admissible selfMembers_plain
  exact ⟨⟨x, known, own.mpr (methods "m" _ (by decide) (by decide))⟩, a, found,
    also.mpr (fields "f" (by decide))⟩

/-- A list of dates, of one class of that name or another. -/
def listOfDates (package : String) : Java.TypeBinding where
  qualifiedName := "java.util.List<" ++ package ++ ".Date>"
  name := "List<Date>"
  package := some "java.util"
  isParameterized := true

def headOf (c : TypeIndex) : Java.VariableBinding := { name := "head", kind := .field, declaringClass := some c }

/-- Two lists whose qualified names differ and whose own names do not, each with a method and a field. -/
def datesContext : Context where
  bindings := {
    types := [listOfDates "java.util", listOfDates "java.sql"]
    methods := [{ name := "size", declaringClass := some 0 }, { name := "size", declaringClass := some 1 }]
    vars := [headOf 0, headOf 1] }

def datesHistory : List Operation := [.methodOfBinding 0, .attributeOfBinding (headOf 0)]

/-- What resolving a list of dates makes. -/
def withDates (package : String) (d : Draft) : Draft :=
  (Draft.started datesContext.bindings (listOfDates package) (.ns (Draft.ensureNamespace "java.util" d).1)
    (Draft.ensureNamespace "java.util" d).2).setKind ⟨d.repository.types.size⟩ (.parameterized none [])

theorem typeOfBinding_dates {i : TypeIndex} {package : String} {d : Draft}
    (listed : datesContext.bindings.types[i]? = some (listOfDates package))
    (fresh : d.registry.types.get? (typeKey datesContext.bindings (listOfDates package)) = none) :
    Draft.typeOfBinding datesContext i d = (⟨d.repository.types.size⟩, withDates package d) := by
  have free : enclosing? datesContext.bindings (listOfDates package) = none := rfl
  have size : (Draft.ensureNamespace "java.util" d).2.repository.types.size = d.repository.types.size :=
    Draft.ensureNamespace_size _ _
  apply Draft.typeOfBinding_of_run
  rw [withDates, ← size]
  exact .inside listed (.made fresh (.free free) fresh .unlinked (.parameterized rfl .finished .finished))

/-- The first list with its members. -/
def firstDates : Draft :=
  (Draft.methodOfResolved datesContext { name := "size", declaringClass := some 0 } ⟨0⟩ (withDates "java.util" {})).2

def bothMembers : Draft :=
  (Draft.fieldUnder (firstDates.repository.typeName ⟨0⟩ ++ "." ++ "head") "head" ⟨0⟩ Draft.unknownType firstDates).2

theorem applyAll_datesHistory : applyAll datesContext datesHistory {} = bothMembers := by
  have made : Draft.typeOfBinding datesContext 0 {} = (⟨0⟩, withDates "java.util" {}) := typeOfBinding_dates rfl rfl
  have known : Draft.typeOfBinding datesContext 0 firstDates = (⟨0⟩, firstDates) :=
    Draft.typeOfBinding_of_run (.inside rfl (.known (by decide +kernel)))
  have method : (Draft.methodOfBinding datesContext 0 {}).2 = firstDates := by
    rw [Draft.methodOfBinding_eq rfl rfl, made]
    rfl
  change (Draft.attributeOfBinding datesContext (headOf 0) (Draft.methodOfBinding datesContext 0 {}).2).2 = _
  rw [method, Draft.attributeOfBinding_declared rfl, known]
  rfl

theorem typeOfBinding_bothMembers :
    Draft.typeOfBinding datesContext 1 bothMembers = (⟨2⟩, withDates "java.sql" bothMembers) := by
  have fresh : bothMembers.registry.types.get? (typeKey datesContext.bindings (listOfDates "java.sql")) = none := by
    decide +kernel
  have size : bothMembers.repository.types.size = 2 := by decide +kernel
  rw [typeOfBinding_dates rfl fresh, size]

/-- The members of the second list are those of the first. -/
theorem members_astray :
    let before := applyAll datesContext datesHistory {}
    let owner := (Draft.typeOfBinding datesContext 1 before).1
    (∃ x, (Draft.methodOfBinding datesContext 1 before).2.repository.method?
        (Draft.methodOfBinding datesContext 1 before).1 = some x ∧ x.parentType ≠ owner) ∧
      ∃ a, (Draft.attributeOfBinding datesContext (headOf 1) before).2.repository.attribute?
        (Draft.attributeOfBinding datesContext (headOf 1) before).1 = some a ∧ a.parentType ≠ owner := by
  dsimp only
  rw [Draft.methodOfBinding_eq rfl rfl, Draft.attributeOfBinding_declared rfl, applyAll_datesHistory,
    typeOfBinding_bothMembers]
  have first : ∀ {α : Type} {o : Option α} (parent : α → TypeId), o.map parent = some ⟨0⟩ →
      ∃ x, o = some x ∧ parent x ≠ ⟨2⟩ := by
    intro α o parent own
    obtain ⟨x, known, same⟩ := Option.map_eq_some_iff.mp own
    exact ⟨x, known, same ▸ by decide⟩
  exact ⟨first MethodEntity.parentType (by decide +kernel), first AttributeEntity.parentType (by decide +kernel)⟩

end Operation

end Famix
