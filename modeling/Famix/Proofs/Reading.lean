import Famix.Draft.Operation
import Famix.Draft.Traversal

/-!
A source tree as it is read: a sequence of marks, from the outside in and in the order written. Whatever opens a
container is closed again by a mark of its own. To visit a tree is to act on its marks one after the other, so that
what holds of every visit can be shown mark by mark.
-/
namespace Famix

open Java (Expr Fragment Statement AnonymousClass FieldDecl MethodDecl InitializerDecl TypeDecl Member TypeRef
  VariableIndex CompilationUnit)

inductive Mark where
  | package (name : String)
  | type (decl : TypeDecl)
  | anonymous (anonymous : AnonymousClass) (instantiated : TypeRef)
  | method (decl : MethodDecl)
  | initializer (decl : InitializerDecl)
  /-- the end of what was opened last -/
  | close
  | field (fragment : Fragment) (field : FieldDecl)
  | localVariable (fragment : Fragment) (type : TypeRef)
  /-- a method invocation or an instance creation -/
  | call (e : Expr)
  /-- a simple name, which may be what an assignment assigns to -/
  | mention (identifier : String) (binding : Option VariableIndex) (assigned : Bool)

/-- The marks of what an assignment assigns to. -/
def assigned : Expr → List Mark → List Mark
  | .name identifier binding, _ => [.mention identifier binding true]
  | _, marks => marks

mutual
def readExpr : Expr → List Mark
  | .name identifier binding => [.mention identifier binding false]
  | .assignment target value => assigned target (readExpr target) ++ readExpr value
  | .invocation receiver name arguments binding =>
    .call (.invocation receiver name arguments binding) :: (readOption receiver ++ readExprs arguments)
  | .creation type arguments binding anonymous =>
    .call (.creation type arguments binding anonymous) :: (readExprs arguments ++ readAnonymous type anonymous)
  | .literal _ => []
  | .other _ => []

def readOption : Option Expr → List Mark
  | none => []
  | some e => readExpr e

def readExprs : List Expr → List Mark
  | [] => []
  | e :: rest => readExpr e ++ readExprs rest

def readAnonymous (type : TypeRef) : Option AnonymousClass → List Mark
  | none => []
  | some { binding, body } => .anonymous { binding, body } type :: (readMembers body ++ [.close])

def readStatement : Statement → List Mark
  | .localVariable type fragments => readLocals type fragments
  | .expression e => readExpr e
  | .returned value => readOption value
  | .block statements => readStatements statements

def readStatements : List Statement → List Mark
  | [] => []
  | s :: rest => readStatement s ++ readStatements rest

def readLocals (type : TypeRef) : List Fragment → List Mark
  | [] => []
  | { name, binding, initial } :: rest =>
    .localVariable { name, binding, initial } type :: (readOption initial ++ readLocals type rest)

def readFields (field : FieldDecl) : List Fragment → List Mark
  | [] => []
  | { name, binding, initial } :: rest =>
    .field { name, binding, initial } field :: (readOption initial ++ readFields field rest)

def readMember : Member → List Mark
  | .field { type, modifiers, fragments } => readFields { type, modifiers, fragments } fragments
  | .method { name, binding, isConstructor, returnType, parameters, modifiers, body } =>
    .method { name, binding, isConstructor, returnType, parameters, modifiers, body } ::
      (readStatements body ++ [.close])
  | .initializer { isStatic, body } => .initializer { isStatic, body } :: (readStatements body ++ [.close])
  | .type { name, kind, binding, modifiers, superclass, interfaces, body } =>
    .type { name, kind, binding, modifiers, superclass, interfaces, body } :: (readMembers body ++ [.close])

def readMembers : List Member → List Mark
  | [] => []
  | m :: rest => readMember m ++ readMembers rest
end

def readTypes (types : List TypeDecl) : List Mark := types.flatMap fun t => readMember (.type t)

def readUnit (unit : CompilationUnit) : List Mark :=
  match unit.package with
  | some package => .package package :: (readTypes unit.types ++ [.close])
  | none => readTypes unit.types

def readUnits (units : List CompilationUnit) : List Mark := units.flatMap readUnit

namespace Draft

variable (ctx : Context)

/-- The access that a simple name makes; one that is assigned to is written. -/
def mention (e : Expr) (assigned : Bool) : Drafting Unit := do
  match ← accessExpr ctx e with
  | some id => if assigned then let _ ← markWrite id
  | none => return

/-- A declared method with all its parameters. -/
def methodWithParameters (decl : MethodDecl) : Drafting MethodId := do
  let id ← methodOfDecl ctx decl
  declareParameters ctx id decl.parameters
  return id

end Draft

namespace Mark

variable (ctx : Context)

/-- The container that a mark opens, and the draft in which it is there; for other marks the draft alone. -/
def prepare : Mark → Drafting (Option Container)
  | .package name => return some (.ns (← Draft.ensureNamespace name))
  | .type decl => return some (.type (← Draft.typeOfDecl ctx decl))
  | .anonymous a t => return some (.type (← Draft.typeOfAnonymous ctx a t))
  | .method decl => return some (.method (← Draft.methodWithParameters ctx decl))
  | .initializer decl => return some (.method (← Draft.initializerMethod decl))
  | .close => return none
  | .field fragment decl => do let _ ← Draft.attributeOfFragment ctx fragment decl; return none
  | .localVariable fragment t => do let _ ← Draft.localVariable ctx fragment t; return none
  | .call e => do let _ ← Draft.invokeExpr ctx e; return none
  | .mention identifier binding assigned => do Draft.mention ctx (.name identifier binding) assigned; return none

/-- The containers that are open after a mark. -/
def nest (m : Mark) (opened : Option Container) (frames : List Container) : List Container :=
  match opened, m with
  | some c, _ => c :: frames
  | none, .close => frames.tail
  | none, _ => frames

/-- The draft after a mark has been acted on. -/
def act (m : Mark) (d : Draft) : Draft :=
  let (opened, e) := m.prepare ctx d
  { e with scope := ⟨m.nest opened e.scope.frames⟩ }

def actAll (marks : List Mark) (d : Draft) : Draft := marks.foldl (fun d m => m.act ctx d) d

theorem actAll_cons (m : Mark) (rest : List Mark) (d : Draft) :
    actAll ctx (m :: rest) d = actAll ctx rest (m.act ctx d) := rfl

theorem actAll_append (marks more : List Mark) (d : Draft) :
    actAll ctx (marks ++ more) d = actAll ctx more (actAll ctx marks d) := List.foldl_append

end Mark

namespace Draft

open Mark (actAll actAll_cons actAll_append)

variable (ctx : Context)

theorem leave_snd (d : Draft) : (leave d).2 = { d with scope := ⟨d.scope.frames.tail⟩ } := by
  obtain ⟨repository, registry, ⟨frames⟩, unknowns, filed⟩ := d
  cases frames <;> rfl

theorem actAll_close (d : Draft) : actAll ctx [.close] d = (leave d).2 := by
  rw [leave_snd]
  rfl

theorem accessExpr_of_none {e : Expr} (unbound : namedBinding? ctx e = none) (d : Draft) :
    accessExpr ctx e d = (none, d) := by
  simp only [accessExpr, unbound]
  rfl

theorem accessExpr_of_some {e : Expr} {b : Java.VariableBinding} (bound : namedBinding? ctx e = some b) (d : Draft) :
    accessExpr ctx e d = (some (access (variableOfBinding ctx b d).1 (variableOfBinding ctx b d).2).1,
      (access (variableOfBinding ctx b d).1 (variableOfBinding ctx b d).2).2) := by
  simp only [accessExpr, bound]
  rfl

theorem mention_of_none {e : Expr} (unbound : namedBinding? ctx e = none) (assigned : Bool) (d : Draft) :
    (mention ctx e assigned d).2 = d := by
  simp only [mention, accessExpr, unbound]
  rfl

theorem mention_read (e : Expr) (d : Draft) : (mention ctx e false d).2 = (accessExpr ctx e d).2 := by
  cases bound : namedBinding? ctx e with
  | none => rw [mention_of_none ctx bound, accessExpr_of_none ctx bound]
  | some b =>
    simp only [mention, accessExpr, bound]
    rfl

theorem actAll_mention (identifier : String) (binding : Option VariableIndex) (assigned : Bool) (d : Draft) :
    actAll ctx [.mention identifier binding assigned] d =
      (mention ctx (.name identifier binding) assigned d).2 := rfl

end Draft

namespace Visitor

open Mark (actAll actAll_cons actAll_append)
open Draft (namedBinding? mention accessExpr mention_of_none mention_read actAll_mention actAll_close)

variable (ctx : Context)

theorem visitExpr_bound {target : Expr} {b : Java.VariableBinding} (bound : namedBinding? ctx target = some b)
    (value : Expr) (d : Draft) :
    (visitExpr ctx Call.step (.assignment target value) d).2 =
      (visitExpr ctx Call.step value (mention ctx target true d).2).2 := by
  rw [visitExpr]
  simp only [Call.accessExpr, mention, accessExpr, bound]
  rfl

theorem visitExpr_unbound {target : Expr} (unbound : namedBinding? ctx target = none) (value : Expr) (d : Draft) :
    (visitExpr ctx Call.step (.assignment target value) d).2 =
      (visitExpr ctx Call.step value (visitExpr ctx Call.step target d).2).2 := by
  rw [visitExpr]
  simp only [Call.accessExpr, accessExpr, unbound]
  rfl

/-- What is assigned to is accessed once: a bound name is written, and anything else is visited. -/
theorem visitExpr_assignment (target value : Expr) (d : Draft)
    (visited : (visitExpr ctx Call.step target d).2 = actAll ctx (readExpr target) d) :
    (visitExpr ctx Call.step (.assignment target value) d).2 =
      (visitExpr ctx Call.step value (actAll ctx (assigned target (readExpr target)) d)).2 := by
  cases bound : namedBinding? ctx target with
  | some b =>
    obtain ⟨identifier, binding, rfl⟩ : ∃ identifier binding, target = .name identifier binding := by
      cases target with
      | name identifier binding => exact ⟨identifier, binding, rfl⟩
      | _ => cases bound
    rw [visitExpr_bound ctx bound]
    rfl
  | none =>
    rw [visitExpr_unbound ctx bound, visited]
    cases target with
    | name identifier binding =>
      rw [readExpr, assigned, actAll_mention, actAll_mention, mention_of_none ctx bound, mention_of_none ctx bound]
    | _ => rfl

mutual
theorem visitExpr_reads (e : Expr) (d : Draft) : (visitExpr ctx Call.step e d).2 = actAll ctx (readExpr e) d := by
  cases e with
  | name identifier binding =>
    rw [visitExpr, readExpr, actAll_mention, mention_read]
    rfl
  | assignment target value =>
    rw [visitExpr_assignment ctx target value d (visitExpr_reads target d), visitExpr_reads, readExpr, actAll_append]
  | invocation receiver name arguments binding =>
    rw [visitExpr, readExpr, actAll_cons, actAll_append, ← visitOption_reads, ← visitExprs_reads]
    rfl
  | creation type arguments binding anonymous =>
    rw [visitExpr, readExpr, actAll_cons, actAll_append, ← visitExprs_reads, ← visitAnonymous_reads]
    rfl
  | literal | other =>
    rw [visitExpr, readExpr]
    rfl

theorem visitOption_reads (e : Option Expr) (d : Draft) :
    (visitOption ctx Call.step e d).2 = actAll ctx (readOption e) d := by
  cases e with
  | none =>
    rw [visitOption, readOption]
    rfl
  | some e => rw [visitOption, readOption, visitExpr_reads]

theorem visitExprs_reads (es : List Expr) (d : Draft) :
    (visitExprs ctx Call.step es d).2 = actAll ctx (readExprs es) d := by
  cases es with
  | nil =>
    rw [visitExprs, readExprs]
    rfl
  | cons e rest =>
    rw [visitExprs, readExprs, actAll_append, ← visitExpr_reads, ← visitExprs_reads]
    rfl

theorem visitAnonymous_reads (type : TypeRef) (a : Option AnonymousClass) (d : Draft) :
    (visitAnonymous ctx Call.step type a d).2 = actAll ctx (readAnonymous type a) d := by
  cases a with
  | none =>
    rw [visitAnonymous, readAnonymous]
    rfl
  | some a =>
    obtain ⟨binding, body⟩ := a
    rw [visitAnonymous, readAnonymous, actAll_cons, actAll_append, actAll_close, ← visitMembers_reads]
    rfl

theorem visitStatement_reads (s : Statement) (d : Draft) :
    (visitStatement ctx Call.step s d).2 = actAll ctx (readStatement s) d := by
  cases s with
  | localVariable type fragments => rw [visitStatement, readStatement, visitLocals_reads]
  | expression e => rw [visitStatement, readStatement, visitExpr_reads]
  | returned value => rw [visitStatement, readStatement, visitOption_reads]
  | block statements => rw [visitStatement, readStatement, visitStatements_reads]

theorem visitStatements_reads (ss : List Statement) (d : Draft) :
    (visitStatements ctx Call.step ss d).2 = actAll ctx (readStatements ss) d := by
  cases ss with
  | nil =>
    rw [visitStatements, readStatements]
    rfl
  | cons s rest =>
    rw [visitStatements, readStatements, actAll_append, ← visitStatement_reads, ← visitStatements_reads]
    rfl

theorem visitLocals_reads (type : TypeRef) (fragments : List Fragment) (d : Draft) :
    (visitLocals ctx Call.step type fragments d).2 = actAll ctx (readLocals type fragments) d := by
  cases fragments with
  | nil =>
    rw [visitLocals, readLocals]
    rfl
  | cons fragment rest =>
    obtain ⟨name, binding, initial⟩ := fragment
    rw [visitLocals, readLocals, actAll_cons, actAll_append, ← visitOption_reads, ← visitLocals_reads]
    rfl

theorem visitFields_reads (field : FieldDecl) (fragments : List Fragment) (d : Draft) :
    (visitFields ctx Call.step field fragments d).2 = actAll ctx (readFields field fragments) d := by
  cases fragments with
  | nil =>
    rw [visitFields, readFields]
    rfl
  | cons fragment rest =>
    obtain ⟨name, binding, initial⟩ := fragment
    rw [visitFields, readFields, actAll_cons, actAll_append, ← visitOption_reads, ← visitFields_reads]
    rfl

theorem visitMember_reads (m : Member) (d : Draft) :
    (visitMember ctx Call.step m d).2 = actAll ctx (readMember m) d := by
  cases m with
  | field decl =>
    obtain ⟨type, modifiers, fragments⟩ := decl
    rw [visitMember, readMember, visitFields_reads]
  | method decl =>
    obtain ⟨name, binding, isConstructor, returnType, parameters, modifiers, body⟩ := decl
    rw [visitMember, readMember, actAll_cons, actAll_append, actAll_close, ← visitStatements_reads]
    rfl
  | initializer decl =>
    obtain ⟨isStatic, body⟩ := decl
    rw [visitMember, readMember, actAll_cons, actAll_append, actAll_close, ← visitStatements_reads]
    rfl
  | type decl =>
    obtain ⟨name, kind, binding, modifiers, superclass, interfaces, body⟩ := decl
    rw [visitMember, readMember, actAll_cons, actAll_append, actAll_close, ← visitMembers_reads]
    rfl

theorem visitMembers_reads (ms : List Member) (d : Draft) :
    (visitMembers ctx Call.step ms d).2 = actAll ctx (readMembers ms) d := by
  cases ms with
  | nil =>
    rw [visitMembers, readMembers]
    rfl
  | cons m rest =>
    rw [visitMembers, readMembers, actAll_append, ← visitMember_reads, ← visitMembers_reads]
    rfl
end

theorem visitTypes_reads (types : List TypeDecl) (d : Draft) :
    (visitTypes ctx Call.step types d).2 = actAll ctx (readTypes types) d := by
  induction types generalizing d with
  | nil => rfl
  | cons t rest ih =>
    rw [readTypes, List.flatMap_cons, actAll_append, ← visitMember_reads]
    exact ih (visitMember ctx Call.step (.type t) d).2

theorem visitUnit_reads (unit : CompilationUnit) (d : Draft) :
    (visitUnit ctx Call.step unit d).2 = actAll ctx (readUnit unit) d := by
  unfold visitUnit readUnit
  cases unit.package with
  | none => exact visitTypes_reads ctx unit.types d
  | some package =>
    dsimp only
    rw [actAll_cons, actAll_append, actAll_close, ← visitTypes_reads]
    rfl

/-- To visit source files is to act on their marks in order. -/
theorem visitUnits_reads (units : List CompilationUnit) (d : Draft) :
    (visitUnits ctx Call.step units d).2 = actAll ctx (readUnits units) d := by
  induction units generalizing d with
  | nil => rfl
  | cons u rest ih =>
    rw [readUnits, List.flatMap_cons, actAll_append, ← visitUnit_reads]
    exact ih (visitUnit ctx Call.step u d).2

end Visitor

theorem buildModel_reads (project : Java.Project) (keying : AttributeKeying) :
    buildModel project keying =
      (Mark.actAll { bindings := project.bindings, keying } (readUnits project.units) {}).repository := by
  rw [buildModel, Draft.visitUnits, Visitor.visitUnits_reads]

end Famix
