import Famix.Draft.Associations

/-!
Operations on a model under construction, as values. A history is a list of them.
-/
namespace Famix

open Java (TypeIndex MethodIndex VariableIndex TypeExpr TypeRef TypeDecl AnonymousClass MethodDecl
  InitializerDecl ParameterDecl FieldDecl Fragment VariableBinding Expr)

inductive Operation where
  | enter (container : Container)
  | leave
  | currentMethod
  | ownerType
  | ensureNamespace (name : String)
  | unknownNamespace
  | unknownType
  | typeOfBinding (i : TypeIndex)
  | typeOfRef (t : TypeRef)
  | typeOfExpr (t : TypeExpr)
  | typeOfDecl (decl : TypeDecl)
  | typeOfAnonymous (anonymous : AnonymousClass) (instantiated : TypeRef)
  | methodOfBinding (i : MethodIndex)
  | methodOfDecl (decl : MethodDecl)
  | initializerMethod (decl : InitializerDecl)
  | unresolvedMethod (signature : String)
  | parameterOfDecl (decl : ParameterDecl) (method : MethodId)
  | currentParameter (name : String)
  | attributeOfFragment (fragment : Fragment) (field : FieldDecl)
  | attributeOfBinding (b : VariableBinding)
  | localVariable (fragment : Fragment) (type : TypeRef)
  | inherit (subclass superclass : TypeId)
  | inheritBinding (subclass : TypeId) (superclass : TypeIndex)
  | inheritRef (subclass : TypeId) (superclass : TypeRef)
  | invoke (binding : Option MethodIndex) (signature : String)
  | invokeExpr (e : Expr)
  | accessBinding (i : VariableIndex)
  | accessExpr (e : Expr)
  | variableOfExpr (e : Expr)
  | markWrite (id : AccessId)

/-- What an operation answers. -/
inductive Answer where
  | element (e : Option Element)
  | done (b : Bool)
  deriving DecidableEq, Repr

namespace Answer

def ofId (id : ElementId kind) : Answer := .element (some id.element)

def ofId? (id : Option (ElementId kind)) : Answer := .element (id.map (·.element))

end Answer

namespace Operation

def perform (ctx : Context) : Operation → Drafting Answer
  | .enter c => do Draft.enter c; return .element none
  | .leave => return .element ((← Draft.leave).map (·.element))
  | .currentMethod => return .ofId? (← Draft.currentMethod)
  | .ownerType => return .ofId? (← get).ownerType
  | .ensureNamespace name => return .ofId (← Draft.ensureNamespace name)
  | .unknownNamespace => return .ofId (← Draft.unknownNamespace)
  | .unknownType => return .ofId (← Draft.unknownType)
  | .typeOfBinding i => return .ofId (← Draft.typeOfBinding ctx i)
  | .typeOfRef t => return .ofId (← Draft.typeOfRef ctx t)
  | .typeOfExpr t => return .ofId (← Draft.typeOfExpr t)
  | .typeOfDecl decl => return .ofId (← Draft.typeOfDecl ctx decl)
  | .typeOfAnonymous anonymous instantiated =>
    return .ofId (← Draft.typeOfAnonymous ctx anonymous instantiated)
  | .methodOfBinding i => return .ofId (← Draft.methodOfBinding ctx i)
  | .methodOfDecl decl => return .ofId (← Draft.methodOfDecl ctx decl)
  | .initializerMethod decl => return .ofId (← Draft.initializerMethod decl)
  | .unresolvedMethod signature => return .ofId (← Draft.unresolvedMethod signature)
  | .parameterOfDecl decl method => return .ofId (← Draft.parameterOfDecl ctx decl method)
  | .currentParameter name => return .ofId? ((← get).currentParameter name)
  | .attributeOfFragment fragment field => return .ofId (← Draft.attributeOfFragment ctx fragment field)
  | .attributeOfBinding b => return .ofId (← Draft.attributeOfBinding ctx b)
  | .localVariable fragment type => return .ofId (← Draft.localVariable ctx fragment type)
  | .inherit subclass superclass => return .ofId (← Draft.inherit subclass superclass)
  | .inheritBinding subclass superclass => return .ofId (← Draft.inheritBinding ctx subclass superclass)
  | .inheritRef subclass superclass => return .ofId (← Draft.inheritRef ctx subclass superclass)
  | .invoke binding signature => return .ofId (← Draft.invoke ctx binding signature)
  | .invokeExpr e => return .ofId? (← Draft.invokeExpr ctx e)
  | .accessBinding i => return .ofId (← Draft.accessBinding ctx i)
  | .accessExpr e => return .ofId? (← Draft.accessExpr ctx e)
  | .variableOfExpr e => return .element ((← Draft.variableOfExpr ctx e).map (·.element))
  | .markWrite id => return .done (← Draft.markWrite id)

/-- The draft after an operation. -/
def apply (ctx : Context) (op : Operation) (d : Draft) : Draft := (op.perform ctx d).2

/-- The draft after a history. -/
def applyAll (ctx : Context) (history : List Operation) (d : Draft) : Draft :=
  history.foldl (fun d op => op.apply ctx d) d

@[simp] theorem applyAll_nil (ctx : Context) (d : Draft) : applyAll ctx [] d = d := rfl

@[simp] theorem applyAll_cons (ctx : Context) (op : Operation) (rest : List Operation) (d : Draft) :
    applyAll ctx (op :: rest) d = applyAll ctx rest (op.apply ctx d) := rfl

theorem applyAll_append (ctx : Context) (ops more : List Operation) (d : Draft) :
    applyAll ctx (ops ++ more) d = applyAll ctx more (applyAll ctx ops d) := by
  simp [applyAll]

end Operation

/-- A call of an operation by someone who uses what it gives. -/
structure Call (ctx : Context) (α : Type) where
  op : Operation
  step : Drafting α
  answer : α → Answer
  /-- the step is what the operation does -/
  performs : op.perform ctx = (do return answer (← step))

namespace Call

variable {ctx : Context}

def enter (c : Container) : Call ctx Unit := ⟨.enter c, Draft.enter c, fun _ => .element none, rfl⟩

def leave : Call ctx (Option Container) := ⟨.leave, Draft.leave, fun c => .element (c.map (·.element)), rfl⟩

def ensureNamespace (name : String) : Call ctx NamespaceId :=
  ⟨.ensureNamespace name, Draft.ensureNamespace name, .ofId, rfl⟩

def typeOfDecl (decl : TypeDecl) : Call ctx TypeId := ⟨.typeOfDecl decl, Draft.typeOfDecl ctx decl, .ofId, rfl⟩

def typeOfAnonymous (anonymous : AnonymousClass) (instantiated : TypeRef) : Call ctx TypeId :=
  ⟨.typeOfAnonymous anonymous instantiated, Draft.typeOfAnonymous ctx anonymous instantiated, .ofId, rfl⟩

def methodOfDecl (decl : MethodDecl) : Call ctx MethodId :=
  ⟨.methodOfDecl decl, Draft.methodOfDecl ctx decl, .ofId, rfl⟩

def initializerMethod (decl : InitializerDecl) : Call ctx MethodId :=
  ⟨.initializerMethod decl, Draft.initializerMethod decl, .ofId, rfl⟩

def parameterOfDecl (decl : ParameterDecl) (method : MethodId) : Call ctx ParameterId :=
  ⟨.parameterOfDecl decl method, Draft.parameterOfDecl ctx decl method, .ofId, rfl⟩

def attributeOfFragment (fragment : Fragment) (field : FieldDecl) : Call ctx AttributeId :=
  ⟨.attributeOfFragment fragment field, Draft.attributeOfFragment ctx fragment field, .ofId, rfl⟩

def localVariable (fragment : Fragment) (type : TypeRef) : Call ctx LocalVariableId :=
  ⟨.localVariable fragment type, Draft.localVariable ctx fragment type, .ofId, rfl⟩

def invokeExpr (e : Expr) : Call ctx (Option InvocationId) := ⟨.invokeExpr e, Draft.invokeExpr ctx e, .ofId?, rfl⟩

def accessExpr (e : Expr) : Call ctx (Option AccessId) := ⟨.accessExpr e, Draft.accessExpr ctx e, .ofId?, rfl⟩

def markWrite (id : AccessId) : Call ctx Bool := ⟨.markWrite id, Draft.markWrite id, .done, rfl⟩

end Call

end Famix
