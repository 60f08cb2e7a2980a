import Famix.Proofs.Reading
import Mathlib.Data.List.Basic

/-!
Source files whose nodes are given other places in the table. The model stays the same if what is found at the new
places is as good as what was found at the old ones. In particular, a place beyond the end of the table may be left out.
-/
namespace Famix

open Java (BindingTable TypeBinding MethodBinding VariableBinding TypeIndex MethodIndex VariableIndex TypeRef
  ParameterDecl Expr Fragment Statement AnonymousClass FieldDecl MethodDecl InitializerDecl TypeDecl Member
  CompilationUnit Project)

/-- The new place for every place that a node may carry. -/
structure Rebinding where
  type : Option TypeIndex → Option TypeIndex
  method : Option MethodIndex → Option MethodIndex
  vars : Option VariableIndex → Option VariableIndex

namespace Rebinding

variable (ρ : Rebinding)

def typeRef (t : TypeRef) : TypeRef := { t with binding := ρ.type t.binding }

def parameter (p : ParameterDecl) : ParameterDecl :=
  { p with type := ρ.typeRef p.type, binding := ρ.vars p.binding }

mutual
def expr : Expr → Expr
  | .name identifier binding => .name identifier (ρ.vars binding)
  | .literal text => .literal text
  | .assignment target value => .assignment (expr target) (expr value)
  | .invocation receiver name arguments binding =>
    .invocation (option receiver) name (exprs arguments) (ρ.method binding)
  | .creation type arguments binding anonymous =>
    .creation (ρ.typeRef type) (exprs arguments) (ρ.method binding) (anonymousClass anonymous)
  | .other text => .other text

def option : Option Expr → Option Expr
  | none => none
  | some e => some (expr e)

def exprs : List Expr → List Expr
  | [] => []
  | e :: rest => expr e :: exprs rest

def anonymousClass : Option AnonymousClass → Option AnonymousClass
  | none => none
  | some { binding, body } => some ⟨ρ.type binding, members body⟩

def statement : Statement → Statement
  | .localVariable type fragments => .localVariable (ρ.typeRef type) (fragmentList fragments)
  | .expression e => .expression (expr e)
  | .returned value => .returned (option value)
  | .block body => .block (statements body)

def statements : List Statement → List Statement
  | [] => []
  | s :: rest => statement s :: statements rest

def fragmentList : List Fragment → List Fragment
  | [] => []
  | { name, binding, initial } :: rest => ⟨name, ρ.vars binding, option initial⟩ :: fragmentList rest

def member : Member → Member
  | .field { type, modifiers, fragments } =>
    .field ⟨ρ.typeRef type, modifiers, fragmentList fragments⟩
  | .method { name, binding, isConstructor, returnType, parameters, modifiers, body } =>
    .method ⟨name, ρ.method binding, isConstructor, returnType.map ρ.typeRef, parameters.map ρ.parameter, modifiers,
      statements body⟩
  | .initializer { isStatic, body } => .initializer ⟨isStatic, statements body⟩
  | .type { name, kind, binding, modifiers, superclass, interfaces, body } =>
    .type ⟨name, kind, ρ.type binding, modifiers, superclass.map ρ.typeRef, interfaces.map ρ.typeRef, members body⟩

def members : List Member → List Member
  | [] => []
  | m :: rest => member m :: members rest
end

def fragment (f : Fragment) : Fragment :=
  { f with binding := ρ.vars f.binding, initial := ρ.option f.initial }

def fieldDecl (f : FieldDecl) : FieldDecl :=
  { f with type := ρ.typeRef f.type, fragments := ρ.fragmentList f.fragments }

def methodDecl (m : MethodDecl) : MethodDecl :=
  { m with
    binding := ρ.method m.binding
    returnType := m.returnType.map ρ.typeRef
    parameters := m.parameters.map ρ.parameter
    body := ρ.statements m.body }

def initializerDecl (i : InitializerDecl) : InitializerDecl := { i with body := ρ.statements i.body }

def typeDecl (t : TypeDecl) : TypeDecl :=
  { t with
    binding := ρ.type t.binding
    superclass := t.superclass.map ρ.typeRef
    interfaces := t.interfaces.map ρ.typeRef
    body := ρ.members t.body }

def anonymous (a : AnonymousClass) : AnonymousClass := ⟨ρ.type a.binding, ρ.members a.body⟩

def unit (u : CompilationUnit) : CompilationUnit := { u with types := u.types.map ρ.typeDecl }

def mark : Mark → Mark
  | .package name => .package name
  | .type decl => .type (ρ.typeDecl decl)
  | .anonymous a t => .anonymous (ρ.anonymous a) (ρ.typeRef t)
  | .method decl => .method (ρ.methodDecl decl)
  | .initializer decl => .initializer (ρ.initializerDecl decl)
  | .close => .close
  | .field f decl => .field (ρ.fragment f) (ρ.fieldDecl decl)
  | .localVariable f t => .localVariable (ρ.fragment f) (ρ.typeRef t)
  | .call e => .call (ρ.expr e)
  | .mention identifier binding assigned => .mention identifier (ρ.vars binding) assigned

/-! What is written stays. -/

mutual
theorem text_expr (e : Expr) : (ρ.expr e).text = e.text := by
  cases e with
  | name | literal | other => simp only [expr, Expr.text]
  | assignment target value => simp only [expr, Expr.text, text_expr]
  | invocation receiver name arguments binding => simp only [expr, Expr.text, receiverText_option, texts_exprs]
  | creation type arguments binding anonymous => simp only [expr, Expr.text, texts_exprs, typeRef]

theorem texts_exprs (es : List Expr) : Expr.texts (ρ.exprs es) = Expr.texts es := by
  cases es with
  | nil => simp only [exprs]
  | cons e rest => simp only [exprs, Expr.texts, text_expr, texts_exprs]

theorem receiverText_option (e : Option Expr) : Expr.receiverText (ρ.option e) = Expr.receiverText e := by
  cases e with
  | none => simp only [option]
  | some e => simp only [option, Expr.receiverText, text_expr]
end

theorem callSignature_expr (e : Expr) : (ρ.expr e).callSignature = e.callSignature := by
  cases e with
  | name | literal | assignment | other => simp only [expr, Expr.callSignature]
  | invocation receiver name arguments binding => rw [expr, Expr.callSignature, texts_exprs, Expr.callSignature]
  | creation type arguments binding anonymous =>
    rw [expr, Expr.callSignature, texts_exprs, Expr.callSignature, typeRef]

/-! The marks of a tree with other places are its marks with other places. -/

theorem assigned_expr (e : Expr) (marks : List Mark) :
    assigned (ρ.expr e) (marks.map ρ.mark) = (assigned e marks).map ρ.mark := by
  cases e <;> rw [expr] <;> rfl

mutual
theorem readExpr_expr (e : Expr) : readExpr (ρ.expr e) = (readExpr e).map ρ.mark := by
  cases e with
  | name identifier binding => simp only [expr, readExpr, List.map_cons, List.map_nil, mark]
  | assignment target value =>
    rw [readExpr, List.map_append, ← assigned_expr, ← readExpr_expr target, ← readExpr_expr value, expr, readExpr]
  | invocation receiver name arguments binding =>
    simp only [expr, readExpr, List.map_cons, List.map_append, mark, readOption_option, readExprs_exprs]
  | creation type arguments binding anonymous =>
    simp only [expr, readExpr, List.map_cons, List.map_append, mark, readExprs_exprs, readAnonymous_anonymousClass]
  | literal | other => simp only [expr, readExpr, List.map_nil]

theorem readOption_option (e : Option Expr) : readOption (ρ.option e) = (readOption e).map ρ.mark := by
  cases e with
  | none => simp only [option, readOption, List.map_nil]
  | some e => simp only [option, readOption, readExpr_expr]

theorem readExprs_exprs (es : List Expr) : readExprs (ρ.exprs es) = (readExprs es).map ρ.mark := by
  cases es with
  | nil => simp only [exprs, readExprs, List.map_nil]
  | cons e rest => simp only [exprs, readExprs, List.map_append, readExpr_expr, readExprs_exprs]

theorem readAnonymous_anonymousClass (t : TypeRef) (a : Option AnonymousClass) :
    readAnonymous (ρ.typeRef t) (ρ.anonymousClass a) = (readAnonymous t a).map ρ.mark := by
  cases a with
  | none => simp only [anonymousClass, readAnonymous, List.map_nil]
  | some a =>
    obtain ⟨binding, body⟩ := a
    simp only [anonymousClass, readAnonymous, List.map_cons, List.map_append, List.map_nil, mark, anonymous,
      readMembers_members]

theorem readStatement_statement (s : Statement) : readStatement (ρ.statement s) = (readStatement s).map ρ.mark := by
  cases s with
  | localVariable type fragments => simp only [statement, readStatement, readLocals_fragmentList]
  | expression e => simp only [statement, readStatement, readExpr_expr]
  | returned value => simp only [statement, readStatement, readOption_option]
  | block body => simp only [statement, readStatement, readStatements_statements]

theorem readStatements_statements (ss : List Statement) :
    readStatements (ρ.statements ss) = (readStatements ss).map ρ.mark := by
  cases ss with
  | nil => simp only [statements, readStatements, List.map_nil]
  | cons s rest =>
    simp only [statements, readStatements, List.map_append, readStatement_statement, readStatements_statements]

theorem readLocals_fragmentList (t : TypeRef) (fragments : List Fragment) :
    readLocals (ρ.typeRef t) (ρ.fragmentList fragments) = (readLocals t fragments).map ρ.mark := by
  cases fragments with
  | nil => simp only [fragmentList, readLocals, List.map_nil]
  | cons f rest =>
    obtain ⟨name, binding, initial⟩ := f
    simp only [fragmentList, readLocals, List.map_cons, List.map_append, mark, fragment, readOption_option,
      readLocals_fragmentList]

theorem readFields_fragmentList (field : FieldDecl) (fragments : List Fragment) :
    readFields (ρ.fieldDecl field) (ρ.fragmentList fragments) = (readFields field fragments).map ρ.mark := by
  cases fragments with
  | nil => simp only [fragmentList, readFields, List.map_nil]
  | cons f rest =>
    obtain ⟨name, binding, initial⟩ := f
    simp only [fragmentList, readFields, List.map_cons, List.map_append, mark, fragment, readOption_option,
      readFields_fragmentList]

theorem readMember_member (m : Member) : readMember (ρ.member m) = (readMember m).map ρ.mark := by
  cases m with
  | field decl =>
    obtain ⟨type, modifiers, fragments⟩ := decl
    rw [member, readMember, readMember]
    exact readFields_fragmentList ⟨type, modifiers, fragments⟩ fragments
  | method decl =>
    obtain ⟨name, binding, isConstructor, returnType, parameters, modifiers, body⟩ := decl
    simp only [member, readMember, List.map_cons, List.map_append, List.map_nil, mark, methodDecl,
      readStatements_statements]
  | initializer decl =>
    obtain ⟨isStatic, body⟩ := decl
    simp only [member, readMember, List.map_cons, List.map_append, List.map_nil, mark, initializerDecl,
      readStatements_statements]
  | type decl =>
    obtain ⟨name, kind, binding, modifiers, superclass, interfaces, body⟩ := decl
    simp only [member, readMember, List.map_cons, List.map_append, List.map_nil, mark, typeDecl, readMembers_members]

theorem readMembers_members (ms : List Member) : readMembers (ρ.members ms) = (readMembers ms).map ρ.mark := by
  cases ms with
  | nil => simp only [members, readMembers, List.map_nil]
  | cons m rest => simp only [members, readMembers, List.map_append, readMember_member, readMembers_members]
end

theorem readUnit_unit (u : CompilationUnit) : readUnit (ρ.unit u) = (readUnit u).map ρ.mark := by
  have types : readTypes (u.types.map ρ.typeDecl) = (readTypes u.types).map ρ.mark := by
    rw [readTypes, readTypes, List.flatMap_map, List.map_flatMap]
    refine List.flatMap_congr fun t _ => ?_
    rw [← readMember_member]
    cases t
    rw [member]
    rfl
  unfold readUnit unit
  dsimp only
  split
  · rw [types, List.map_cons, List.map_append]
    rfl
  · exact types

theorem readUnits_units (us : List CompilationUnit) : readUnits (us.map ρ.unit) = (readUnits us).map ρ.mark := by
  rw [readUnits, readUnits, List.flatMap_map, List.map_flatMap]
  exact List.flatMap_congr fun u _ => ρ.readUnit_unit u

end Rebinding

namespace Java.BindingTable

/-- What is found at a place that may be missing, with the place. -/
def found? (entries : List α) (i : Option Nat) : Option (Nat × α) := do
  let i ← i
  let entry ← entries[i]?
  return (i, entry)

theorem resolveIn_of_none {entries : List α} {i : Option Nat} (missing : found? entries i = none) (hint : β) :
    resolveIn entries i hint = .unresolved hint := by
  unfold resolveIn
  split
  · rfl
  · split
    · next known => simp [found?, known] at missing
    · rfl

theorem resolveIn_of_some {entries : List α} {i : Option Nat} {j : Nat} {entry : α}
    (found : found? entries i = some (j, entry)) (hint : β) : resolveIn entries i hint = .resolved j entry := by
  simp only [found?, Option.bind_eq_bind, Option.bind_eq_some_iff] at found
  obtain ⟨_, rfl, _, known, same⟩ := found
  cases same
  simp only [resolveIn, known]

/-- Places at which related entries are found, or none at both, resolve alike. -/
theorem resolveIn_cases {entries entries' : List α} {i i' : Option Nat} {R : Nat × α → Nat × α → Prop}
    (same : Option.Rel R (found? entries i) (found? entries' i')) (hint : β) (hint' : γ) :
    (resolveIn entries i hint = .unresolved hint ∧ resolveIn entries' i' hint' = .unresolved hint') ∨
      ∃ x y, resolveIn entries i hint = .resolved x.1 x.2 ∧
        resolveIn entries' i' hint' = .resolved y.1 y.2 ∧ R x y := by
  generalize old : found? entries i = o, new : found? entries' i' = n at same
  cases same with
  | none => exact .inl ⟨resolveIn_of_none old hint, resolveIn_of_none new hint'⟩
  | some same => exact .inr ⟨_, _, resolveIn_of_some old hint, resolveIn_of_some new hint', same⟩

theorem variableAt?_cases {table table' : BindingTable} {i i' : Option Nat}
    {R : Nat × VariableBinding → Nat × VariableBinding → Prop}
    (same : Option.Rel R (found? table.vars i) (found? table'.vars i')) :
    (i.bind table.variableAt? = none ∧ i'.bind table'.variableAt? = none) ∨
      ∃ x y, i.bind table.variableAt? = some x.2 ∧ i'.bind table'.variableAt? = some y.2 ∧ R x y := by
  have entry : ∀ (t : BindingTable) (i : Option Nat), i.bind t.variableAt? = (found? t.vars i).map Prod.snd := by
    intro t i
    cases i with
    | none => rfl
    | some i => cases found : t.vars[i]? <;> simp [found?, variableAt?, found]
  rw [entry, entry]
  generalize found? table.vars i = o, found? table'.vars i' = n at same
  cases same with
  | none => exact .inl ⟨rfl, rfl⟩
  | some same => exact .inr ⟨_, _, rfl, rfl, same⟩

end Java.BindingTable

open Java.BindingTable (found? resolveIn_cases variableAt?_cases)

/-- Two bound types for which the same is done. -/
structure SameType (ctx ctx' : Context) (x y : TypeIndex × TypeBinding) : Prop where
  resolved : Draft.typeOfBinding ctx' y.1 = Draft.typeOfBinding ctx x.1
  name : y.2.qualifiedName = x.2.qualifiedName
  kind : kindOf y.2 = kindOf x.2
  isVoid : y.2.isVoid = x.2.isVoid

structure SameMethod (ctx ctx' : Context) (x y : MethodIndex × MethodBinding) : Prop where
  referred : Draft.methodOfBinding ctx' y.1 = Draft.methodOfBinding ctx x.1
  declared : ∀ owner, Draft.methodOfResolved ctx' y.2 owner = Draft.methodOfResolved ctx x.2 owner

structure SameVariable (ctx ctx' : Context) (x y : VariableIndex × VariableBinding) : Prop where
  field : Draft.attributeOfBinding ctx' y.2 = Draft.attributeOfBinding ctx x.2
  name : y.2.name = x.2.name
  kind : y.2.kind = x.2.kind
  modifiers : y.2.modifiers = x.2.modifiers

/-- What is found at the new places in one context is as good as what is found at the old ones in the other. -/
structure Rebinding.Preserves (ρ : Rebinding) (ctx ctx' : Context) : Prop where
  keying : ctx'.keying = ctx.keying
  types : ∀ i, Option.Rel (SameType ctx ctx') (found? ctx.bindings.types i) (found? ctx'.bindings.types (ρ.type i))
  methods : ∀ i,
    Option.Rel (SameMethod ctx ctx') (found? ctx.bindings.methods i) (found? ctx'.bindings.methods (ρ.method i))
  vars : ∀ i, Option.Rel (SameVariable ctx ctx') (found? ctx.bindings.vars i) (found? ctx'.bindings.vars (ρ.vars i))

namespace Draft

variable {ρ : Rebinding} {ctx ctx' : Context} (h : ρ.Preserves ctx ctx')
include h

theorem typeOfRef_rebind (t : TypeRef) : typeOfRef ctx' (ρ.typeRef t) = typeOfRef ctx t := by
  unfold typeOfRef Rebinding.typeRef BindingTable.resolveType
  rcases resolveIn_cases (h.types t.binding) t.written t.written with ⟨old, new⟩ | ⟨x, y, old, new, same⟩
  · simp only [old, new]
  · simp only [old, new, same.resolved]

theorem writtenTypeText_rebind (t : TypeRef) : writtenTypeText ctx' (ρ.typeRef t) = writtenTypeText ctx t := by
  unfold writtenTypeText Rebinding.typeRef BindingTable.resolveType
  rcases resolveIn_cases (h.types t.binding) t.written t.written with ⟨old, new⟩ | ⟨x, y, old, new, same⟩
  · simp only [old, new]
  · simp only [old, new, same.name]

theorem isVoid_rebind (t : TypeRef) : isVoid ctx' (ρ.typeRef t) = isVoid ctx t := by
  unfold isVoid Rebinding.typeRef BindingTable.resolveType
  rcases resolveIn_cases (h.types t.binding) t.written t.written with ⟨old, new⟩ | ⟨x, y, old, new, same⟩
  · simp only [old, new]
  · simp only [old, new, same.isVoid]

theorem inheritRef_rebind (id : TypeId) (t : TypeRef) :
    inheritRef ctx' id (ρ.typeRef t) = inheritRef ctx id t := by
  rw [inheritRef, inheritRef, typeOfRef_rebind h]

theorem inheritRefs_rebind (id : TypeId) (ts : List TypeRef) :
    inheritRefs ctx' id (ts.map ρ.typeRef) = inheritRefs ctx id ts := by
  induction ts with
  | nil => rfl
  | cons t rest ih => rw [List.map_cons, inheritRefs, inheritRefs, inheritRef_rebind h, ih]

theorem typeOfUnboundDecl_rebind (decl : TypeDecl) :
    typeOfUnboundDecl ctx' (ρ.typeDecl decl) = typeOfUnboundDecl ctx decl := by
  have supertypes : (ρ.typeDecl decl).superclass.toList ++ (ρ.typeDecl decl).interfaces =
      (decl.superclass.toList ++ decl.interfaces).map ρ.typeRef := by
    rw [List.map_append, Rebinding.typeDecl]
    cases decl.superclass <;> rfl
  unfold typeOfUnboundDecl
  simp only [supertypes, inheritRefs_rebind h]
  rfl

theorem typeOfDecl_rebind (decl : TypeDecl) : typeOfDecl ctx' (ρ.typeDecl decl) = typeOfDecl ctx decl := by
  have binding : (ρ.typeDecl decl).binding = ρ.type decl.binding := rfl
  unfold typeOfDecl BindingTable.resolveType
  rcases resolveIn_cases (h.types decl.binding) decl (ρ.typeDecl decl) with ⟨old, new⟩ | ⟨x, y, old, new, same⟩
  · simp only [binding, old, new, typeOfUnboundDecl_rebind h]
    rfl
  · simp only [binding, old, new, same.resolved]
    rfl

theorem typeOfAnonymous_rebind (a : AnonymousClass) (t : TypeRef) :
    typeOfAnonymous ctx' (ρ.anonymous a) (ρ.typeRef t) = typeOfAnonymous ctx a t := by
  have binding : (ρ.anonymous a).binding = ρ.type a.binding := rfl
  unfold typeOfAnonymous BindingTable.resolveType
  rcases resolveIn_cases (h.types a.binding) () () with ⟨old, new⟩ | ⟨x, y, old, new, same⟩
  · simp only [binding, old, new, inheritRef_rebind h]
  · simp only [binding, old, new, same.kind, inheritRef_rebind h]

theorem methodOfUnboundDecl_rebind (decl : MethodDecl) (owner : TypeId) :
    methodOfUnboundDecl ctx' (ρ.methodDecl decl) owner = methodOfUnboundDecl ctx decl owner := by
  have texts : (ρ.methodDecl decl).parameters.map (writtenTypeText ctx' ·.type) =
      decl.parameters.map (writtenTypeText ctx ·.type) := by
    rw [Rebinding.methodDecl, List.map_map]
    exact List.map_congr_left fun q _ => writtenTypeText_rebind h q.type
  have returned : (ρ.methodDecl decl).returnType = decl.returnType.map ρ.typeRef := rfl
  unfold methodOfUnboundDecl
  simp only [texts, returned]
  cases decl.returnType with
  | none => rfl
  | some t =>
    simp only [Option.map_some, isVoid_rebind h, typeOfRef_rebind h]
    rfl

theorem methodOfDecl_rebind (decl : MethodDecl) : methodOfDecl ctx' (ρ.methodDecl decl) = methodOfDecl ctx decl := by
  have binding : (ρ.methodDecl decl).binding = ρ.method decl.binding := rfl
  unfold methodOfDecl BindingTable.resolveMethod
  rcases resolveIn_cases (h.methods decl.binding) decl (ρ.methodDecl decl) with ⟨old, new⟩ | ⟨x, y, old, new, same⟩
  · simp only [binding, old, new, methodOfUnboundDecl_rebind h]
    rfl
  · simp only [binding, old, new, same.declared]
    rfl

theorem parameterOfDecl_rebind (q : ParameterDecl) (method : MethodId) :
    parameterOfDecl ctx' (ρ.parameter q) method = parameterOfDecl ctx q method := by
  unfold parameterOfDecl
  simp only [Rebinding.parameter, typeOfRef_rebind h]

theorem declareParameters_rebind (method : MethodId) (parameters : List ParameterDecl) :
    declareParameters ctx' method (parameters.map ρ.parameter) = declareParameters ctx method parameters := by
  induction parameters with
  | nil => rfl
  | cons q rest ih => rw [List.map_cons, declareParameters_cons, declareParameters_cons, parameterOfDecl_rebind h, ih]

theorem methodWithParameters_rebind (decl : MethodDecl) :
    methodWithParameters ctx' (ρ.methodDecl decl) = methodWithParameters ctx decl := by
  unfold methodWithParameters
  have parameters : (ρ.methodDecl decl).parameters = decl.parameters.map ρ.parameter := rfl
  simp only [methodOfDecl_rebind h, parameters, declareParameters_rebind h]

theorem attributeOfUnbound_rebind (f : Fragment) (field : FieldDecl) :
    attributeOfUnbound ctx' (ρ.fragment f) (ρ.fieldDecl field) = attributeOfUnbound ctx f field := by
  unfold attributeOfUnbound
  simp only [Rebinding.fragment, Rebinding.fieldDecl, h.keying, typeOfRef_rebind h]

theorem fieldBinding?_cases (f : Fragment) :
    (fieldBinding? ctx f = none ∧ fieldBinding? ctx' (ρ.fragment f) = none) ∨
      ∃ x y, fieldBinding? ctx f = some x.2 ∧ fieldBinding? ctx' (ρ.fragment f) = some y.2 ∧
        SameVariable ctx ctx' x y := by
  have bound : ∀ (c : Context) (f : Fragment), fieldBinding? c f =
      (f.binding.bind c.bindings.variableAt?).bind fun b => if b.kind = .field then some b else none := by
    intro c f
    unfold fieldBinding?
    cases f.binding <;> rfl
  have binding : (ρ.fragment f).binding = ρ.vars f.binding := rfl
  rw [bound, bound, binding]
  rcases variableAt?_cases (h.vars f.binding) with ⟨old, new⟩ | ⟨x, y, old, new, same⟩
  · rw [old, new]
    exact .inl ⟨rfl, rfl⟩
  · rw [old, new, Option.bind_some, Option.bind_some, same.kind]
    split
    · exact .inr ⟨x, y, rfl, rfl, same⟩
    · exact .inl ⟨rfl, rfl⟩

theorem attributeOfFragment_rebind (f : Fragment) (field : FieldDecl) :
    attributeOfFragment ctx' (ρ.fragment f) (ρ.fieldDecl field) = attributeOfFragment ctx f field := by
  unfold attributeOfFragment
  rcases fieldBinding?_cases h f with ⟨old, new⟩ | ⟨x, y, old, new, same⟩
  · simp only [old, new, attributeOfUnbound_rebind h]
    rfl
  · simp only [old, new, same.field, same.modifiers]

theorem localVariable_rebind (f : Fragment) (t : TypeRef) :
    localVariable ctx' (ρ.fragment f) (ρ.typeRef t) = localVariable ctx f t := by
  unfold localVariable
  rw [typeOfRef_rebind h]
  rfl

theorem invoke_rebind (binding : Option MethodIndex) (signature : String) :
    invoke ctx' (ρ.method binding) signature = invoke ctx binding signature := by
  unfold invoke BindingTable.resolveMethod
  rcases resolveIn_cases (h.methods binding) signature signature with ⟨old, new⟩ | ⟨x, y, old, new, same⟩
  · simp only [old, new]
  · simp only [old, new, same.referred]

theorem invokeExpr_rebind (e : Expr) : invokeExpr ctx' (ρ.expr e) = invokeExpr ctx e := by
  unfold invokeExpr
  rw [ρ.callSignature_expr]
  cases e with
  | name | literal | assignment | other => rfl
  | invocation | creation => simp only [Rebinding.expr, calledBinding, invoke_rebind h]

omit h in
theorem variableOfBinding_rebind {x y : VariableIndex × VariableBinding} (same : SameVariable ctx ctx' x y) :
    variableOfBinding ctx' y.2 = variableOfBinding ctx x.2 := by
  unfold variableOfBinding
  rw [same.kind, same.field, same.name]

theorem mention_rebind (identifier : String) (binding : Option VariableIndex) (assigned : Bool) :
    mention ctx' (.name identifier (ρ.vars binding)) assigned = mention ctx (.name identifier binding) assigned := by
  have bound : ∀ (c : Context) (i : Option VariableIndex),
      namedBinding? c (.name identifier i) = i.bind c.bindings.variableAt? := by
    intro c i
    cases i <;> rfl
  unfold mention accessExpr
  rw [bound, bound]
  rcases variableAt?_cases (h.vars binding) with ⟨old, new⟩ | ⟨x, y, old, new, same⟩
  · rw [old, new]
  · rw [old, new]
    dsimp only
    rw [variableOfBinding_rebind same]

end Draft

namespace Mark

variable {ρ : Rebinding} {ctx ctx' : Context} (h : ρ.Preserves ctx ctx')
include h

theorem prepare_rebind (m : Mark) : (ρ.mark m).prepare ctx' = m.prepare ctx := by
  cases m with
  | package | close | initializer => rfl
  | type decl => rw [Rebinding.mark, prepare, prepare, Draft.typeOfDecl_rebind h]
  | anonymous a t => rw [Rebinding.mark, prepare, prepare, Draft.typeOfAnonymous_rebind h]
  | method decl => rw [Rebinding.mark, prepare, prepare, Draft.methodWithParameters_rebind h]
  | field f decl => rw [Rebinding.mark, prepare, prepare, Draft.attributeOfFragment_rebind h]
  | localVariable f t => rw [Rebinding.mark, prepare, prepare, Draft.localVariable_rebind h]
  | call e => rw [Rebinding.mark, prepare, prepare, Draft.invokeExpr_rebind h]
  | mention identifier binding assigned => rw [Rebinding.mark, prepare, prepare, Draft.mention_rebind h]

theorem act_rebind (m : Mark) (d : Draft) : (ρ.mark m).act ctx' d = m.act ctx d := by
  have nest : ∀ opened frames, (ρ.mark m).nest opened frames = m.nest opened frames := by
    intro opened frames
    cases opened <;> cases m <;> rfl
  unfold act
  simp only [prepare_rebind h, nest]

theorem actAll_rebind (marks : List Mark) (d : Draft) :
    actAll ctx' (marks.map ρ.mark) d = actAll ctx marks d := by
  induction marks generalizing d with
  | nil => rfl
  | cons m rest ih => rw [List.map_cons, actAll_cons, actAll_cons, act_rebind h, ih]

end Mark

theorem buildModel_rebind {ρ : Rebinding} {table table' : BindingTable} {keying : AttributeKeying}
    (h : ρ.Preserves { bindings := table, keying } { bindings := table', keying }) (units : List CompilationUnit) :
    buildModel { bindings := table', units := units.map ρ.unit } keying =
      buildModel { bindings := table, units } keying := by
  rw [buildModel_reads, buildModel_reads, ρ.readUnits_units, Mark.actAll_rebind h]

/-! Places beyond the end of the table. -/

/-- Leaves out the places at which a table has nothing. -/
def Rebinding.within (table : BindingTable) : Rebinding where
  type i := i.filter (· < table.types.length)
  method i := i.filter (· < table.methods.length)
  vars i := i.filter (· < table.vars.length)

/-- The project with no place on a node of the source that is beyond the end of the table. The table stays. -/
def Java.Project.pruned (project : Project) : Project :=
  { project with units := project.units.map (Rebinding.within project.bindings).unit }

theorem Java.BindingTable.found?_filter (entries : List α) (i : Option Nat) :
    found? entries (i.filter (· < entries.length)) = found? entries i := by
  cases i with
  | none => rfl
  | some i =>
    by_cases inside : i < entries.length
    · rw [Option.filter_some_pos (by simpa using inside)]
    · rw [Option.filter_some_neg (by simpa using inside)]
      simp [found?, List.getElem?_eq_none (Nat.le_of_not_lt inside)]

theorem Rebinding.within_preserves (table : BindingTable) (keying : AttributeKeying) :
    (within table).Preserves { bindings := table, keying } { bindings := table, keying } := by
  have same : ∀ {α : Type} {R : Nat × α → Nat × α → Prop} (entries : List α) (i : Option Nat), (∀ x, R x x) →
      Option.Rel R (found? entries i) (found? entries (i.filter (· < entries.length))) := by
    intro α R entries i refl
    rw [Java.BindingTable.found?_filter]
    cases found? entries i with
    | none => exact .none
    | some x => exact .some (refl x)
  exact ⟨rfl, fun i => same _ i fun _ => ⟨rfl, rfl, rfl, rfl⟩, fun i => same _ i fun _ => ⟨rfl, fun _ => rfl⟩,
    fun i => same _ i fun _ => ⟨rfl, rfl, rfl, rfl⟩⟩

/-- A place beyond the end of the table says no more than none. Without the places on its nodes at which the table has
nothing, a project has the same model. -/
theorem buildModel_pruned (project : Project) (keying : AttributeKeying) :
    buildModel project.pruned keying = buildModel project keying :=
  buildModel_rebind (Rebinding.within_preserves project.bindings keying) project.units

example : (Project.pruned ⟨{ types := [.inPackage "p" "A"] },
    [{ types := [⟨"B", .classType, some 1, [], some ⟨.simple "A", some 0⟩, [], []⟩] }]⟩).units =
      [{ types := [⟨"B", .classType, none, [], some ⟨.simple "A", some 0⟩, [], []⟩] }] := rfl

end Famix
