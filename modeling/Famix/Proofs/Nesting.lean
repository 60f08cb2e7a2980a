import Famix.Proofs.Change
import Famix.Proofs.Reading
import Mathlib.Data.List.Induction

/-!
How marks nest. Each mark has its place in a reading, and what encloses a place is what was opened before it and not
closed again. The containers that are open when a mark is acted on are those of the places that enclose it.
-/
namespace Famix

open Java (Expr Fragment Statement AnonymousClass FieldDecl Member TypeDecl TypeRef CompilationUnit ParameterDecl
  MethodDecl)

namespace Mark

inductive Role where
  | opening
  | closing
  | single
  deriving DecidableEq

def role : Mark → Role
  | .package _ | .type _ | .anonymous .. | .method _ | .initializer _ => .opening
  | .close => .closing
  | .field .. | .localVariable .. | .call _ | .mention .. => .single

/-- Marks that close whatever they open, and nothing else. -/
inductive Nested : List Mark → Prop where
  | nil : Nested []
  | append {marks more : List Mark} (first : Nested marks) (second : Nested more) : Nested (marks ++ more)
  | single (m : Mark) (single : m.role = .single) : Nested [m]
  | enclosed (m : Mark) (opening : m.role = .opening) {body : List Mark} (inner : Nested body) :
      Nested (m :: (body ++ [.close]))

/-- The kind of container that a mark opens. -/
def opens : Mark → Option Kind
  | .package _ => some .ns
  | .type _ | .anonymous .. => some .type
  | .method _ | .initializer _ => some .method
  | _ => none

/-- Where marks stand: directly in the body of a type, or elsewhere. -/
inductive Site where
  | typeBody
  | elsewhere

/-- Nested marks that may stand at a site. Methods are opened directly in the body of a type, types anywhere, and no
packages. -/
inductive Laid : Site → List Mark → Prop where
  | nil {site : Site} : Laid site []
  | append {site : Site} {marks more : List Mark} (first : Laid site marks) (second : Laid site more) :
      Laid site (marks ++ more)
  | single {site : Site} (m : Mark) (single : m.role = .single) : Laid site [m]
  | type {site : Site} (m : Mark) (opening : m.opens = some .type) {body : List Mark} (inner : Laid .typeBody body) :
      Laid site (m :: (body ++ [.close]))
  | method (m : Mark) (opening : m.opens = some .method) {body : List Mark} (inner : Laid .elsewhere body) :
      Laid .typeBody (m :: (body ++ [.close]))

theorem Laid.cons {site : Site} {m : Mark} {rest : List Mark} (single : m.role = .single) (laid : Laid site rest) :
    Laid site (m :: rest) := .append (.single m single) laid

theorem role_of_opens {m : Mark} {kind : Kind} (opening : m.opens = some kind) : m.role = .opening := by
  cases m <;> first | rfl | cases opening

theorem Laid.nested {site : Site} {marks : List Mark} (laid : Laid site marks) : Nested marks := by
  induction laid with
  | nil => exact .nil
  | append _ _ ihFirst ihSecond => exact .append ihFirst ihSecond
  | single m single => exact .single m single
  | type m opening _ ih | method m opening _ ih => exact .enclosed m (role_of_opens opening) ih

mutual
theorem laid_readExpr {site : Site} (e : Expr) : Laid site (readExpr e) := by
  cases e with
  | name identifier binding => exact .single _ rfl
  | assignment target value =>
    rw [readExpr]
    refine .append ?_ (laid_readExpr value)
    cases target with
    | name identifier binding => exact .single _ rfl
    | _ => exact laid_readExpr _
  | invocation receiver name arguments binding =>
    rw [readExpr]
    exact .cons rfl (.append (laid_readOption receiver) (laid_readExprs arguments))
  | creation type arguments binding anonymous =>
    rw [readExpr]
    exact .cons rfl (.append (laid_readExprs arguments) (laid_readAnonymous type anonymous))
  | literal | other =>
    rw [readExpr]
    exact .nil

theorem laid_readOption {site : Site} (e : Option Expr) : Laid site (readOption e) := by
  cases e with
  | none =>
    rw [readOption]
    exact .nil
  | some e =>
    rw [readOption]
    exact laid_readExpr e

theorem laid_readExprs {site : Site} (es : List Expr) : Laid site (readExprs es) := by
  cases es with
  | nil =>
    rw [readExprs]
    exact .nil
  | cons e rest =>
    rw [readExprs]
    exact .append (laid_readExpr e) (laid_readExprs rest)

theorem laid_readAnonymous {site : Site} (type : TypeRef) (a : Option AnonymousClass) :
    Laid site (readAnonymous type a) := by
  cases a with
  | none =>
    rw [readAnonymous]
    exact .nil
  | some a =>
    obtain ⟨binding, body⟩ := a
    rw [readAnonymous]
    exact .type _ rfl (laid_readMembers body)

theorem laid_readStatement {site : Site} (s : Statement) : Laid site (readStatement s) := by
  cases s with
  | localVariable type fragments =>
    rw [readStatement]
    exact laid_readLocals type fragments
  | expression e =>
    rw [readStatement]
    exact laid_readExpr e
  | returned value =>
    rw [readStatement]
    exact laid_readOption value
  | block statements =>
    rw [readStatement]
    exact laid_readStatements statements

theorem laid_readStatements {site : Site} (ss : List Statement) : Laid site (readStatements ss) := by
  cases ss with
  | nil =>
    rw [readStatements]
    exact .nil
  | cons s rest =>
    rw [readStatements]
    exact .append (laid_readStatement s) (laid_readStatements rest)

theorem laid_readLocals {site : Site} (type : TypeRef) (fragments : List Fragment) :
    Laid site (readLocals type fragments) := by
  cases fragments with
  | nil =>
    rw [readLocals]
    exact .nil
  | cons fragment rest =>
    obtain ⟨name, binding, initial⟩ := fragment
    rw [readLocals]
    exact .cons rfl (.append (laid_readOption initial) (laid_readLocals type rest))

theorem laid_readFields {site : Site} (field : FieldDecl) (fragments : List Fragment) :
    Laid site (readFields field fragments) := by
  cases fragments with
  | nil =>
    rw [readFields]
    exact .nil
  | cons fragment rest =>
    obtain ⟨name, binding, initial⟩ := fragment
    rw [readFields]
    exact .cons rfl (.append (laid_readOption initial) (laid_readFields field rest))

theorem laid_readMember (m : Member) : Laid .typeBody (readMember m) := by
  cases m with
  | field decl =>
    obtain ⟨type, modifiers, fragments⟩ := decl
    rw [readMember]
    exact laid_readFields _ fragments
  | method decl =>
    obtain ⟨name, binding, isConstructor, returnType, parameters, modifiers, body⟩ := decl
    rw [readMember]
    exact .method _ rfl (laid_readStatements body)
  | initializer decl =>
    obtain ⟨isStatic, body⟩ := decl
    rw [readMember]
    exact .method _ rfl (laid_readStatements body)
  | type decl =>
    obtain ⟨name, kind, binding, modifiers, superclass, interfaces, body⟩ := decl
    rw [readMember]
    exact .type _ rfl (laid_readMembers body)

theorem laid_readMembers (ms : List Member) : Laid .typeBody (readMembers ms) := by
  cases ms with
  | nil =>
    rw [readMembers]
    exact .nil
  | cons m rest =>
    rw [readMembers]
    exact .append (laid_readMember m) (laid_readMembers rest)
end

theorem laid_readType {site : Site} (decl : TypeDecl) : Laid site (readMember (.type decl)) := by
  obtain ⟨name, kind, binding, modifiers, superclass, interfaces, body⟩ := decl
  rw [readMember]
  exact .type _ rfl (laid_readMembers body)

theorem laid_readTypes {site : Site} (types : List TypeDecl) : Laid site (readTypes types) := by
  induction types with
  | nil => exact .nil
  | cons t rest ih => exact .append (laid_readType t) ih

theorem nested_flatMap {α : Type} {read : α → List Mark} (nested : ∀ a, Nested (read a)) (as : List α) :
    Nested (as.flatMap read) := by
  induction as with
  | nil => exact .nil
  | cons a rest ih => exact .append (nested a) ih

theorem nested_readUnit (unit : CompilationUnit) : Nested (readUnit unit) := by
  have laid : Laid .elsewhere (readTypes unit.types) := laid_readTypes unit.types
  unfold readUnit
  split
  · exact .enclosed _ rfl laid.nested
  · exact laid.nested

theorem nested_readUnits (units : List CompilationUnit) : Nested (readUnits units) :=
  nested_flatMap nested_readUnit units

end Mark

/-- A mark and all marks that come before it. -/
structure Place where
  before : List Mark
  mark : Mark

namespace Mark

def placesAfter (before : List Mark) : List Mark → List Place
  | [] => []
  | m :: rest => ⟨before, m⟩ :: placesAfter (before ++ [m]) rest

def places (marks : List Mark) : List Place := placesAfter [] marks

theorem placesAfter_append (before marks more : List Mark) :
    placesAfter before (marks ++ more) = placesAfter before marks ++ placesAfter (before ++ marks) more := by
  induction marks generalizing before with
  | nil => simp [placesAfter]
  | cons m rest ih => simp [placesAfter, ih]

theorem places_concat (marks : List Mark) (m : Mark) : places (marks ++ [m]) = places marks ++ [⟨marks, m⟩] := by
  simp [places, placesAfter_append, placesAfter]

theorem map_mark_places (marks : List Mark) : (places marks).map (·.mark) = marks := by
  induction marks using List.reverseRecOn with
  | nil => rfl
  | append_singleton marks m ih => simp [places_concat, ih]

end Mark

namespace Place

def nest (p : Place) (enclosing : List Place) : List Place :=
  match p.mark.role with
  | .opening => p :: enclosing
  | .closing => enclosing.tail
  | .single => enclosing

end Place

namespace Mark

/-- The places that are opened and not closed again by some marks, the innermost first. -/
def unclosed (marks : List Mark) : List Place := (places marks).foldl (fun enclosing p => p.nest enclosing) []

theorem unclosed_concat (marks : List Mark) (m : Mark) :
    unclosed (marks ++ [m]) = (Place.mk marks m).nest (unclosed marks) := by
  simp [unclosed, places_concat]

/-- What is read as a whole neither opens nor closes anything for what follows it. -/
theorem Nested.unclosed {body : List Mark} (nested : Nested body) (before : List Mark) :
    unclosed (before ++ body) = Mark.unclosed before := by
  induction nested generalizing before with
  | nil => simp
  | append _ _ ihFirst ihSecond => rw [← List.append_assoc, ihSecond, ihFirst]
  | single m single => simp [unclosed_concat, Place.nest, single]
  | @enclosed m opening body _ ih =>
    have inner : before ++ m :: (body ++ [Mark.close]) = (before ++ [m] ++ body) ++ [Mark.close] := by simp
    -- the place of `m` is innermost again when its own close comes
    have opened : Mark.unclosed (before ++ [m] ++ body) = ⟨before, m⟩ :: Mark.unclosed before := by
      rw [ih, unclosed_concat, Place.nest, opening]
    rw [inner, unclosed_concat, opened]
    rfl

end Mark

namespace Place

/-- The draft in which the mark of a place is acted on, when a construction begins with nothing. -/
def draft (ctx : Context) (p : Place) : Draft := Mark.actAll ctx p.before {}

def enclosing (p : Place) : List Place := Mark.unclosed p.before

def opened (ctx : Context) (p : Place) : Option Container := (p.mark.prepare ctx (p.draft ctx)).1

/-- The method that the mark of a place declares: a method, or that of an initializer. -/
def declared? (ctx : Context) (p : Place) : Option MethodId :=
  match p.mark with
  | .method decl => some (Draft.methodOfDecl ctx decl (p.draft ctx)).1
  | .initializer decl => some (Draft.initializerMethod decl (p.draft ctx)).1
  | _ => none

/-- The method whose body a place is in: what encloses it innermost, if that declares a method. -/
def method? (ctx : Context) (p : Place) : Option MethodId := p.enclosing.head?.bind (·.declared? ctx)

end Place

namespace Draft

variable {kinds : Change → Prop} {d e : Draft}

theorem Path.scope (path : Path kinds d e) : e.scope = d.scope := by
  induction path with
  | refl => rfl
  | step _ c _ ih => rw [Change.apply_scope, ih]

theorem BuildsOnly.scope {f : Drafting α} (builds : BuildsOnly kinds f) (d : Draft) : (f d).2.scope = d.scope :=
  (builds.path d).scope

variable (ctx : Context)

theorem builds_declareParameters (method : MethodId) (parameters : List ParameterDecl) :
    BuildsOnly Change.Declares (declareParameters ctx method parameters) := by
  induction parameters with
  | nil => exact builds_pure _
  | cons p rest ih => exact builds_bind ((builds_parameterOfDecl ctx p method).mono fun _ ok => ok.1) fun _ => ih

theorem builds_methodWithParameters (decl : MethodDecl) :
    BuildsOnly Change.Declares (methodWithParameters ctx decl) :=
  builds_bind (builds_methodOfDecl ctx decl) fun id =>
    builds_bind (builds_declareParameters ctx id decl.parameters) fun _ => builds_pure id

theorem mention_write {e : Expr} {id : AccessId} (accesses : (accessExpr ctx e d).1 = some id) :
    (mention ctx e true d).2 = (Change.written id).apply (accessExpr ctx e d).2 := by
  cases bound : namedBinding? ctx e with
  | none => rw [accessExpr_of_none ctx bound] at accesses; cases accesses
  | some b =>
    rw [accessExpr_of_some ctx bound] at accesses ⊢
    cases Option.some.inj accesses
    simp only [mention, accessExpr, bound]
    rfl

theorem mention_scope (e : Expr) (assigned : Bool) (d : Draft) : (mention ctx e assigned d).2.scope = d.scope := by
  have accessed := (builds_accessExpr ctx e).scope d
  cases assigned with
  | false => rw [mention_read, accessed]
  | true =>
    cases bound : namedBinding? ctx e with
    | none => rw [mention_of_none ctx bound]
    | some b => rw [mention_write ctx (by rw [accessExpr_of_some ctx bound]), Change.apply_scope, accessed]

end Draft

namespace Mark

variable (ctx : Context)

theorem prepare_scope (m : Mark) (d : Draft) : (m.prepare ctx d).2.scope = d.scope := by
  cases m with
  | package name => exact (Draft.builds_ensureNamespace name).scope d
  | type decl => exact (Draft.builds_typeOfDecl ctx decl).scope d
  | anonymous a t => exact (Draft.builds_typeOfAnonymous ctx a t).scope d
  | method decl => exact (Draft.builds_methodWithParameters ctx decl).scope d
  | initializer decl => exact (Draft.builds_initializerMethod decl).scope d
  | close => rfl
  | field fragment decl => exact (Draft.builds_attributeOfFragment ctx fragment decl).scope d
  | localVariable fragment t => exact (Draft.builds_localVariable ctx fragment t).scope d
  | call e => exact (Draft.builds_invokeExpr ctx e).scope d
  | mention identifier binding assigned => exact Draft.mention_scope ctx _ assigned d

theorem act_frames (m : Mark) (d : Draft) :
    (m.act ctx d).scope.frames = m.nest (m.prepare ctx d).1 d.scope.frames := by
  change m.nest (m.prepare ctx d).1 (m.prepare ctx d).2.scope.frames = _
  rw [prepare_scope]

/-- The open containers are those that the unclosed places have opened. -/
theorem frames_unclosed (marks : List Mark) :
    (actAll ctx marks {}).scope.frames.map some = (unclosed marks).map (·.opened ctx) := by
  induction marks using List.reverseRecOn with
  | nil => rfl
  | append_singleton marks m ih =>
    rw [actAll_append, actAll_cons, unclosed_concat]
    change (m.act ctx _).scope.frames.map some = _
    rw [act_frames]
    cases m with
    | package | type | anonymous | method | initializer =>
      rw [Place.nest, role, List.map_cons, ← ih]
      rfl
    | close =>
      rw [Place.nest, role, List.map_tail, ← ih, ← List.map_tail]
      rfl
    | field | localVariable | call | mention =>
      rw [Place.nest, role, ← ih]
      rfl

end Mark

def Container.method? : Container → Option MethodId
  | .method id => some id
  | _ => none

theorem Scope.currentMethod_eq (s : Scope) : s.currentMethod = s.frames.head?.bind Container.method? := by
  obtain ⟨frames⟩ := s
  cases frames with
  | nil => rfl
  | cons c rest => cases c <;> rfl

theorem Place.opened_method (ctx : Context) (p : Place) : (p.opened ctx).bind Container.method? = p.declared? ctx := by
  obtain ⟨before, mark⟩ := p
  cases mark <;> rfl

/-- A mark is acted on inside what encloses it innermost. -/
theorem Place.current_draft (ctx : Context) (p : Place) :
    (p.draft ctx).scope.current = p.enclosing.head?.bind (·.opened ctx) := by
  have same : (p.draft ctx).scope.frames.map some = p.enclosing.map (·.opened ctx) :=
    Mark.frames_unclosed ctx p.before
  have innermost : (p.draft ctx).scope.frames.head?.map some = p.enclosing.head?.map (·.opened ctx) := by
    rw [← List.head?_map, ← List.head?_map, same]
  change (p.draft ctx).scope.frames.head? = _
  cases enclosing : p.enclosing.head? with
  | none =>
    rw [enclosing, Option.map_none, Option.map_eq_none_iff] at innermost
    rw [innermost]
    rfl
  | some q =>
    rw [enclosing, Option.map_some, Option.map_eq_some_iff] at innermost
    obtain ⟨c, frame, opened⟩ := innermost
    rw [frame, Option.bind_some, ← opened]

/-- A mark is acted on inside the method whose body it is in. -/
theorem Place.currentMethod_draft (ctx : Context) (p : Place) :
    (p.draft ctx).scope.currentMethod = p.method? ctx := by
  have innermost : (p.draft ctx).scope.frames.head? = p.enclosing.head?.bind (·.opened ctx) := p.current_draft ctx
  rw [Scope.currentMethod_eq, innermost, Option.bind_assoc, Place.method?]
  exact Option.bind_congr fun q _ => q.opened_method ctx

end Famix
