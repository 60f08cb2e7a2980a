import Famix.Draft.Operation

/-!
From source files to a model. Declarations are visited from the outside in, in the order written; a call comes
before its receiver and arguments, the target of an assignment before its value. A visitor says which operations are
called and in what order; how a call is made is left open, and a model is built by making each at once.
-/
namespace Famix

open Java (Expr Fragment Statement AnonymousClass FieldDecl MethodDecl InitializerDecl TypeDecl Member
  TypeRef ParameterDecl CompilationUnit Project)

namespace Visitor

variable (ctx : Context) {m : Type → Type} [Monad m] (call : {α : Type} → Call ctx α → m α)

/-- Opens a container, and closes it when the body is visited. -/
def inside (c : Container) (body : m Unit) : m Unit := do
  call (.enter c)
  body
  let _ ← call .leave

/-- Gives a method all its parameters. -/
def declareParameters (method : MethodId) : List ParameterDecl → m Unit
  | [] => return
  | p :: rest => do
    let _ ← call (.parameterOfDecl p method)
    declareParameters method rest

mutual
def visitExpr : Expr → m Unit
  | .name identifier binding => do
    let _ ← call (.accessExpr (.name identifier binding))
  | .assignment target value => do
    match ← call (.accessExpr target) with
    | some id => let _ ← call (.markWrite id)
    | none => visitExpr target
    visitExpr value
  | .invocation receiver name arguments binding => do
    let _ ← call (.invokeExpr (.invocation receiver name arguments binding))
    visitOption receiver
    visitExprs arguments
  | .creation type arguments binding anonymous => do
    let _ ← call (.invokeExpr (.creation type arguments binding anonymous))
    visitExprs arguments
    visitAnonymous type anonymous
  | .literal _ => return
  | .other _ => return

def visitOption : Option Expr → m Unit
  | none => return
  | some e => visitExpr e

def visitExprs : List Expr → m Unit
  | [] => return
  | e :: rest => do
    visitExpr e
    visitExprs rest

/-- The body of a class declared where it is instantiated. -/
def visitAnonymous (type : TypeRef) : Option AnonymousClass → m Unit
  | none => return
  | some { binding, body } => do
    let id ← call (.typeOfAnonymous { binding, body } type)
    inside ctx call (.type id) (visitMembers body)

def visitStatement : Statement → m Unit
  | .localVariable type fragments => visitLocals type fragments
  | .expression e => visitExpr e
  | .returned value => visitOption value
  | .block statements => visitStatements statements

def visitStatements : List Statement → m Unit
  | [] => return
  | s :: rest => do
    visitStatement s
    visitStatements rest

/-- Local variables, each before its initial value. -/
def visitLocals (type : TypeRef) : List Fragment → m Unit
  | [] => return
  | { name, binding, initial } :: rest => do
    let _ ← call (.localVariable { name, binding, initial } type)
    visitOption initial
    visitLocals type rest

/-- Fields, each before its initial value. -/
def visitFields (field : FieldDecl) : List Fragment → m Unit
  | [] => return
  | { name, binding, initial } :: rest => do
    let _ ← call (.attributeOfFragment { name, binding, initial } field)
    visitOption initial
    visitFields field rest

def visitMember : Member → m Unit
  | .field { type, modifiers, fragments } => visitFields { type, modifiers, fragments } fragments
  | .method { name, binding, isConstructor, returnType, parameters, modifiers, body } => do
    let id ← call (.methodOfDecl { name, binding, isConstructor, returnType, parameters, modifiers, body })
    declareParameters ctx call id parameters
    inside ctx call (.method id) (visitStatements body)
  | .initializer { isStatic, body } => do
    let id ← call (.initializerMethod { isStatic, body })
    inside ctx call (.method id) (visitStatements body)
  | .type { name, kind, binding, modifiers, superclass, interfaces, body } => do
    let id ← call (.typeOfDecl { name, kind, binding, modifiers, superclass, interfaces, body })
    inside ctx call (.type id) (visitMembers body)

def visitMembers : List Member → m Unit
  | [] => return
  | member :: rest => do
    visitMember member
    visitMembers rest
end

/-- A type and all that is declared in it. -/
def visitType (decl : TypeDecl) : m Unit := visitMember ctx call (.type decl)

def visitTypes : List TypeDecl → m Unit
  | [] => return
  | t :: rest => do
    visitType ctx call t
    visitTypes rest

/-- The types of a source file, inside its package if it declares one. -/
def visitUnit (unit : CompilationUnit) : m Unit := do
  match unit.package with
  | some package =>
    let id ← call (.ensureNamespace package)
    inside ctx call (.ns id) (visitTypes ctx call unit.types)
  | none => visitTypes ctx call unit.types

def visitUnits : List CompilationUnit → m Unit
  | [] => return
  | u :: rest => do
    visitUnit ctx call u
    visitUnits rest

end Visitor

namespace Draft

variable (ctx : Context)

def declareParameters (method : MethodId) (parameters : List ParameterDecl) : Drafting Unit :=
  Visitor.declareParameters ctx Call.step method parameters

theorem declareParameters_cons (method : MethodId) (p : ParameterDecl) (rest : List ParameterDecl) :
    declareParameters ctx method (p :: rest) = (do
      let _ ← parameterOfDecl ctx p method
      declareParameters ctx method rest) := rfl

/-- A type and all that is declared in it. -/
def visitType (decl : TypeDecl) : Drafting Unit := Visitor.visitType ctx Call.step decl

/-- A source file. -/
def visitUnit (unit : CompilationUnit) : Drafting Unit := Visitor.visitUnit ctx Call.step unit

def visitUnits (units : List CompilationUnit) : Drafting Unit := Visitor.visitUnits ctx Call.step units

end Draft

/-- The model of a project. -/
def buildModel (project : Project) (keying : AttributeKeying) : Repository :=
  (Draft.visitUnits { bindings := project.bindings, keying } project.units {}).2.repository

end Famix
