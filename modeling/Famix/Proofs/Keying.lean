import Famix.Proofs.Membership

/-!
One field in many ways. A field is asked for by a binding or as it is written, by a declaration, by an access or
directly. Each way finds a type first and then a field under a key that begins with the name of the type, so that two
of them lead to the same field exactly if they form the same key.
-/
namespace Famix

open Java (Fragment FieldDecl VariableBinding Expr)

/-- What is known of a field that is asked for. -/
inductive FieldQuery where
  | bound (b : VariableBinding)
  | written (fragment : Fragment) (field : FieldDecl)

namespace FieldQuery

/-- A declared field is bound if it has an index, which is in the table, where it is that of a field. -/
def ofFragment (ctx : Context) (fragment : Fragment) (field : FieldDecl) : FieldQuery :=
  match fragment.binding with
  | none => .written fragment field
  | some i =>
    match ctx.bindings.vars[i]? with
    | none => .written fragment field
    | some b => if b.kind = .field then .bound b else .written fragment field

theorem ofFragment_eq (ctx : Context) (fragment : Fragment) (field : FieldDecl) :
    ofFragment ctx fragment field = (Draft.fieldBinding? ctx fragment).elim (.written fragment field) .bound := by
  unfold ofFragment Draft.fieldBinding?
  cases fragment.binding with
  | none => rfl
  | some i =>
    change _ = Option.elim ((ctx.bindings.vars[i]?).bind fun b => if b.kind = .field then some b else none) _ _
    dsimp only
    cases ctx.bindings.vars[i]? with
    | none => rfl
    | some b =>
      dsimp only [Option.bind_some]
      split <;> rfl

/-- A field is bound by a binding only if that is the binding of a field. -/
def ofBinding? (b : VariableBinding) : Option FieldQuery := if b.kind = .field then some (.bound b) else none

/-- A field is named by a name with an index, if the index is in the table. -/
def ofExpr? (ctx : Context) : Expr → Option FieldQuery
  | .name _ (some i) => (ctx.bindings.vars[i]?).bind ofBinding?
  | _ => none

theorem namedBinding?_of_ofExpr? {ctx : Context} {e : Expr} {q : FieldQuery} (asks : ofExpr? ctx e = some q) :
    ∃ b, Draft.namedBinding? ctx e = some b ∧ ofBinding? b = some q := by
  cases e with
  | name identifier binding =>
    cases binding with
    | none => cases asks
    | some i => exact Option.bind_eq_some_iff.mp asks
  | _ => cases asks

def name : FieldQuery → String
  | .bound b => b.name
  | .written fragment _ => fragment.name

def isBound : FieldQuery → Bool
  | .bound _ => true
  | .written .. => false

/-- The type of which the field is a member: the class that its binding names, or else the one that is open. -/
def owner (ctx : Context) : FieldQuery → Drafting TypeId
  | .bound b => b.declaringClass.elim Draft.ownerOrUnknown (Draft.typeOfBinding ctx)
  | .written .. => Draft.ownerOrUnknown

def keying (ctx : Context) : FieldQuery → AttributeKeying
  | .bound _ => .keyed
  | .written .. => ctx.keying

def type (ctx : Context) : FieldQuery → Drafting TypeId
  | .bound b => Draft.typeOfBinding? ctx b.type
  | .written _ field => Draft.typeOfRef ctx field.type

def key (ctx : Context) (q : FieldQuery) (typeName : String) : String :=
  Draft.fieldKey (q.keying ctx) typeName q.name

def ask (ctx : Context) : FieldQuery → Drafting AttributeId
  | .bound b => Draft.attributeOfBinding ctx b
  | .written fragment field => Draft.attributeOfUnbound ctx fragment field

variable {ctx : Context}

/-- Every way to ask for a field is to find the type and to look under the key of the field there. -/
theorem ask_eq (q : FieldQuery) (d : Draft) : q.ask ctx d =
    Draft.fieldUnder (q.key ctx ((q.owner ctx d).2.repository.typeName (q.owner ctx d).1)) q.name (q.owner ctx d).1
      (q.type ctx) (q.owner ctx d).2 := by
  cases q with
  | bound b =>
    rw [ask, Draft.attributeOfBinding_eq]
    rfl
  | written fragment field =>
    rw [ask, Draft.attributeOfUnbound_eq]
    rfl

theorem builds_type (q : FieldQuery) : Draft.BuildsOnly (fun _ => True) (q.type ctx) := by
  cases q with
  | bound b => exact (Draft.builds_typeOfBinding? ctx b.type).any
  | written fragment field => exact (Draft.builds_typeOfRef ctx field.type).any

theorem later_owner (q : FieldQuery) (d : Draft) : Draft.Later d (q.owner ctx d).2 := by
  have here := Draft.builds_ownerOrUnknown.any.path d
  cases q with
  | written fragment field => exact .path here
  | bound b =>
    dsimp only [owner]
    cases b.declaringClass with
    | none => exact .path here
    | some i => exact .path ((Draft.builds_typeOfBinding ctx i).any.path d)

theorem achieves_owner {p : Promises} {d : Draft} (kept : ctx.Keeps p) (sound : Draft.Sound p d) (q : FieldQuery) :
    Draft.Achieves p (q.owner ctx) d Draft.Present := by
  have here := Draft.achieves_ownerOrUnknown sound
  cases q with
  | written fragment field => exact here
  | bound b =>
    dsimp only [owner]
    cases b.declaringClass with
    | none => exact here
    | some i => exact Draft.achieves_typeOfBinding kept sound i

theorem later_ask (q : FieldQuery) (d : Draft) : Draft.Later (q.owner ctx d).2 (q.ask ctx d).2 := by
  rw [ask_eq]
  exact (Draft.lasts_fieldUnder q.builds_type).later

theorem ask_registers (q : FieldQuery) (d : Draft) : (q.ask ctx d).2.registry.attributes.get?
    (q.key ctx ((q.owner ctx d).2.repository.typeName (q.owner ctx d).1)) = some (q.ask ctx d).1 := by
  rw [ask_eq]
  exact Draft.fieldUnder_registers ..

theorem builds_ask (q : FieldQuery) : Draft.BuildsOnly Change.Refers (q.ask ctx) := by
  cases q with
  | bound b => exact Draft.builds_attributeOfBinding ctx b
  | written fragment field => exact Draft.builds_attributeOfUnbound ctx fragment field

/-- Two keys of one type are the same if they are formed in the same way, and of the same name if the name matters. -/
theorem key_eq_iff (q r : FieldQuery) (typeName : String) : q.key ctx typeName = r.key ctx typeName ↔
    q.keying ctx = r.keying ctx ∧ (q.keying ctx = .keyed → q.name = r.name) := by
  have apart : ∀ name, typeName ++ "." ++ name ≠ typeName := by
    intro name same
    have longer := congrArg (fun s => s.toList.length) same
    simp at longer
  unfold key
  cases q.keying ctx <;> cases r.keying ctx
  · simp [Draft.fieldKey]
  · simp [Draft.fieldKey, apart]
  · simp [Draft.fieldKey, (apart _).symm]
  · simp [Draft.fieldKey]

end FieldQuery

namespace Draft

theorem attributeOfFragment_ask (ctx : Context) (fragment : Fragment) (field : FieldDecl) (d : Draft) :
    ∃ modifiers, attributeOfFragment ctx fragment field d =
      (((FieldQuery.ofFragment ctx fragment field).ask ctx d).1,
        (Change.attributeDeclared ((FieldQuery.ofFragment ctx fragment field).ask ctx d).1 modifiers).apply
          ((FieldQuery.ofFragment ctx fragment field).ask ctx d).2) := by
  rw [FieldQuery.ofFragment_eq]
  unfold attributeOfFragment
  cases fieldBinding? ctx fragment with
  | some b => exact ⟨b.modifiers, rfl⟩
  | none => exact ⟨field.modifiers, rfl⟩

theorem variableOfBinding_ask {ctx : Context} {b : VariableBinding} {q : FieldQuery}
    (bound : FieldQuery.ofBinding? b = some q) (d : Draft) :
    variableOfBinding ctx b d = (some (.attribute (q.ask ctx d).1), (q.ask ctx d).2) := by
  unfold FieldQuery.ofBinding? at bound
  split at bound
  · next field =>
    cases bound
    simp only [variableOfBinding, field]
    rfl
  · cases bound

end Draft

namespace Repository

/-- The field that an element is, or that it is an access to. -/
def field? (r : Repository) (x : Element) : Option AttributeId :=
  match x.kind with
  | .attribute => some ⟨x.index⟩
  | .access =>
    match (r.access? ⟨x.index⟩).bind (·.variableRef) with
    | some (.attribute id) => some id
    | _ => none
  | _ => none

end Repository

theorem Draft.field?_access (id : AttributeId) (d : Draft) :
    (Draft.access (some (.attribute id)) d).2.repository.field?
      (Draft.access (some (.attribute id)) d).1.element = some id := by
  have known : (Draft.access (some (.attribute id)) d).2.repository.access?
      (Draft.access (some (.attribute id)) d).1 = some {
        id := ⟨d.repository.accesses.size⟩, accessor := d.scope.currentMethod,
        variableRef := some (.attribute id), isWrite := false } :=
    Array.getElem?_push_size
  simp only [Repository.field?, ElementId.element, known, Option.bind_some]

namespace Operation

/-- The field that an operation leads to. -/
def field? (ctx : Context) (op : Operation) (d : Draft) : Option AttributeId :=
  match (op.perform ctx d).1 with
  | .element (some x) => (op.apply ctx d).repository.field? x
  | _ => none

/-- What an operation asks for, if that is a field. -/
def fieldQuery? (ctx : Context) : Operation → Option FieldQuery
  | .attributeOfFragment fragment field => some (.ofFragment ctx fragment field)
  | .attributeOfBinding b => some (.bound b)
  | .accessBinding i => (ctx.bindings.vars[i]?).bind FieldQuery.ofBinding?
  | .accessExpr e | .variableOfExpr e => FieldQuery.ofExpr? ctx e
  | _ => none

theorem field?_of_perform {ctx : Context} {op : Operation} {d e : Draft} {x : Element}
    (run : op.perform ctx d = (.element (some x), e)) : op.field? ctx d = e.repository.field? x := by
  simp only [field?, apply, run]

theorem field?_of_access {ctx : Context} {op : Operation} {d : Draft} {b : VariableBinding} {q : FieldQuery}
    (bound : FieldQuery.ofBinding? b = some q)
    (run : op.perform ctx d =
      (.ofId (Draft.access (Draft.variableOfBinding ctx b d).1 (Draft.variableOfBinding ctx b d).2).1,
        (Draft.access (Draft.variableOfBinding ctx b d).1 (Draft.variableOfBinding ctx b d).2).2)) :
    op.field? ctx d = some (q.ask ctx d).1 ∧ Draft.Later (q.ask ctx d).2 (op.apply ctx d) := by
  rw [Draft.variableOfBinding_ask bound] at run
  rw [field?_of_perform run, apply, run]
  exact ⟨Draft.field?_access _ _, .path ((Draft.builds_access _).path _)⟩

/-- To ask for a field is all that such an operation does before it answers. -/
theorem asks_field {ctx : Context} {op : Operation} {q : FieldQuery} (asks : op.fieldQuery? ctx = some q) (d : Draft) :
    op.field? ctx d = some (q.ask ctx d).1 ∧ Draft.Later (q.ask ctx d).2 (op.apply ctx d) := by
  cases op with
  | attributeOfFragment fragment field =>
    cases asks
    obtain ⟨modifiers, run⟩ := Draft.attributeOfFragment_ask ctx fragment field d
    have answer : (Operation.attributeOfFragment fragment field).perform ctx d =
        (.ofId (Draft.attributeOfFragment ctx fragment field d).1,
          (Draft.attributeOfFragment ctx fragment field d).2) := rfl
    rw [run] at answer
    rw [field?_of_perform answer, apply, answer]
    exact ⟨rfl, Draft.Later.change (.attributeDeclared _ modifiers) _⟩
  | attributeOfBinding b =>
    cases asks
    exact ⟨rfl, .refl _⟩
  | accessBinding i =>
    obtain ⟨b, listed, bound⟩ := Option.bind_eq_some_iff.mp asks
    refine field?_of_access bound ?_
    simp only [perform, Draft.accessBinding, Java.BindingTable.variableAt?, listed]
    rfl
  | accessExpr e =>
    obtain ⟨b, named, bound⟩ := FieldQuery.namedBinding?_of_ofExpr? asks
    refine field?_of_access bound ?_
    simp only [perform, Draft.accessExpr, named]
    rfl
  | variableOfExpr e =>
    obtain ⟨b, named, bound⟩ := FieldQuery.namedBinding?_of_ofExpr? asks
    have answer : (Operation.variableOfExpr e).perform ctx d =
        (.element ((Draft.variableOfBinding ctx b d).1.map (·.element)), (Draft.variableOfBinding ctx b d).2) := by
      simp only [perform, Draft.variableOfExpr, named]
      rfl
    rw [Draft.variableOfBinding_ask bound] at answer
    rw [field?_of_perform answer, apply, answer]
    exact ⟨rfl, .refl _⟩
  | _ => cases asks

/-- Two operations that ask for fields of one type lead to the same field if and only if they form the same key,
whatever is done in between. -/
theorem asked_fields {ctx : Context} {d : Draft} (sound : Draft.Sound .bare d)
    (agree : d.registry.Matches d.repository) {first second : Operation} {q r : FieldQuery}
    (asks : first.fieldQuery? ctx = some q) (also : second.fieldQuery? ctx = some r) (between : List Operation)
    (same : (r.owner ctx (applyAll ctx between (first.apply ctx d))).1 = (q.owner ctx d).1) :
    ∃ id found, first.field? ctx d = some id ∧
      second.field? ctx (applyAll ctx between (first.apply ctx d)) = some found ∧
      (id = found ↔ q.keying ctx = r.keying ctx ∧ (q.keying ctx = .keyed → q.name = r.name)) := by
  obtain ⟨answer, after⟩ := asks_field asks d
  have since : Draft.Later (first.apply ctx d) (applyAll ctx between (first.apply ctx d)) := .history ctx between _
  have last : (second.apply ctx (applyAll ctx between (first.apply ctx d))).registry.Matches
      (second.apply ctx (applyAll ctx between (first.apply ctx d))).repository :=
    applyAll_agree ctx [second] (applyAll_agree ctx between (applyAll_agree ctx [first] agree))
  generalize applyAll ctx between (first.apply ctx d) = e at same since last ⊢
  obtain ⟨answerAgain, afterAgain⟩ := asks_field also e
  have arrives : Draft.Later e (r.owner ctx e).2 := r.later_owner e
  have found : Draft.Achieves .bare (q.owner ctx) d Draft.Present := q.achieves_owner (Promises.bare_keeps ctx) sound
  -- the type is there when its name is read first, and keeps the name
  have name := (found.walk.sound sound).sited.rooted.typeName_keep
    ((q.later_ask d).trans (after.trans (since.trans arrives))).keeps found.post
  have one := (after.trans (since.trans (arrives.trans ((r.later_ask e).trans afterAgain)))).registry.attributes _ _
    (q.ask_registers d)
  have other := afterAgain.registry.attributes _ _ (r.ask_registers e)
  rw [same, name] at other
  exact ⟨_, _, answer, answerAgain, (last.attributes.eq_iff one other).trans (q.key_eq_iff r _)⟩

/-- The fields of a type by their names. Two operations that ask for fields of one type, each by a binding or as it is
written, lead to the same field exactly if the names are the same. That holds for all of them where fields are keyed.
In the legacy keying it holds for those with a binding; those without lead to one field, and that is no other. -/
theorem fields_by_name (ctx : Context) (history : List Operation) (fits : Admissible .bare ctx history {})
    (owner : TypeId) (first second : Operation) (q r : FieldQuery) (asks : first.fieldQuery? ctx = some q)
    (also : second.fieldQuery? ctx = some r) (between : List Operation) :
    let before := applyAll ctx history {}
    let later := applyAll ctx between (first.apply ctx before)
    (q.owner ctx before).1 = owner → (r.owner ctx later).1 = owner →
      ∃ id found, first.field? ctx before = some id ∧ second.field? ctx later = some found ∧
        (ctx.keying = .keyed → (id = found ↔ q.name = r.name)) ∧
        (ctx.keying = .legacy →
          (q.isBound = true → r.isBound = true → (id = found ↔ q.name = r.name)) ∧
          (q.isBound = false → r.isBound = false → id = found) ∧
          (q.isBound ≠ r.isBound → id ≠ found)) := by
  intro before later owned still
  have sound : Draft.Sound .bare before := sound_applyAll (Promises.bare_keeps ctx) history (sound_empty .bare) fits
  have agree : before.registry.Matches before.repository := applyAll_agree ctx history .empty
  obtain ⟨id, found, answer, again, same⟩ := asked_fields sound agree asks also between (still.trans owned.symm)
  refine ⟨id, found, answer, again, fun mode => ?_, fun mode => ?_⟩
  · have keyed : ∀ q : FieldQuery, q.keying ctx = .keyed := by
      intro q
      cases q with
      | bound b => rfl
      | written fragment field => exact mode
    rw [same, keyed q, keyed r]
    simp
  · simp only [ne_eq, same]
    cases q <;> cases r <;> simp [FieldQuery.isBound, FieldQuery.keying, mode]

/-- A class with a field. -/
def fieldContext : Context where
  bindings := {
    types := [.inPackage "p" "A"]
    vars := [{ name := "f", kind := .field, declaringClass := some 0 }] }

def declaresField (name : String) : Operation :=
  .attributeOfFragment ⟨name, none, none⟩ ⟨{ written := .simple "X" }, [], []⟩

theorem fields_by_name_self :
    let reads : Operation := .accessExpr (.name "f" (some 0))
    let before := applyAll fieldContext selfHistory {}
    let later name := applyAll fieldContext [.leave, .unknownType] ((declaresField name).apply fieldContext before)
    Admissible .bare fieldContext selfHistory {} ∧ before.ownerType = some ⟨0⟩ ∧
      (∃ id, (declaresField "f").field? fieldContext before = some id ∧
        reads.field? fieldContext (later "f") = some id) ∧
      ∃ id found, (declaresField "g").field? fieldContext before = some id ∧
        reads.field? fieldContext (later "g") = some found ∧ id ≠ found := by
  intro reads before later
  have fits : Admissible .bare fieldContext selfHistory {} := by
    refine ⟨trivial, ?_, False.elim, ?_, trivial⟩
    all_goals
      change 0 < _
      decide +kernel
  have owned : (Draft.ownerOrUnknown before).1 = ⟨0⟩ := by decide +kernel
  have asked := fun name => fields_by_name fieldContext selfHistory fits ⟨0⟩ (declaresField name) reads
    (.written ⟨name, none, none⟩ ⟨{ written := .simple "X" }, [], []⟩)
    (.bound { name := "f", kind := .field, declaringClass := some 0 }) rfl rfl [.leave, .unknownType] owned
  obtain ⟨id, found, declared, read, same, -⟩ := asked "f" (Draft.typeOfBinding_resolved (by decide +kernel))
  obtain ⟨one, other, also, again, apart, -⟩ := asked "g" (Draft.typeOfBinding_resolved (by decide +kernel))
  cases (same rfl).mpr rfl
  exact ⟨fits, by decide +kernel, ⟨id, declared, read⟩, one, other, also, again,
    fun equal => absurd ((apart rfl).mp equal) (by decide)⟩

end Operation

end Famix
