import Famix.Java.Decode
import Famix.Java.Encode
import Famix.Proofs.Taking

/-!
Projects written and read again. What was written is read back as it was, unless there is a member type somewhere. The
kind of a member type is written under the same name as the tag that says it is a type, and that name is then found
twice, however deep in the project.
-/
namespace Famix

open Json (Value Reader Error Fields)
open Json.TaggedUnion (takes_variant takes_fields takes_again)
open Json.Reader (takes_text takes_boolean takes_index takes_choice takes_none takes_some takes_option takes_list
  takes_each takes_record takes_map takesAll_map)

namespace Java

mutual
/-- Whether no member type is in it. -/
def Expr.flat : Expr → Bool
  | .name .. | .literal _ | .other _ => true
  | .assignment target value => target.flat && value.flat
  | .invocation receiver _ arguments _ => Expr.flatOption receiver && Expr.flatList arguments
  | .creation _ arguments _ anonymous => Expr.flatList arguments && AnonymousClass.flatOption anonymous

def Expr.flatOption : Option Expr → Bool
  | none => true
  | some e => e.flat

def Expr.flatList : List Expr → Bool
  | [] => true
  | e :: rest => e.flat && Expr.flatList rest

def Fragment.flatList : List Fragment → Bool
  | [] => true
  | { initial, .. } :: rest => Expr.flatOption initial && Fragment.flatList rest

def Statement.flat : Statement → Bool
  | .localVariable _ fragments => Fragment.flatList fragments
  | .expression e => e.flat
  | .returned value => Expr.flatOption value
  | .block statements => Statement.flatList statements

def Statement.flatList : List Statement → Bool
  | [] => true
  | s :: rest => s.flat && Statement.flatList rest

def AnonymousClass.flatOption : Option AnonymousClass → Bool
  | none => true
  | some { body, .. } => Member.flatList body

def Member.flat : Member → Bool
  | .field { fragments, .. } => Fragment.flatList fragments
  | .method { body, .. } => Statement.flatList body
  | .initializer { body, .. } => Statement.flatList body
  | .type _ => false

def Member.flatList : List Member → Bool
  | [] => true
  | m :: rest => m.flat && Member.flatList rest
end

def TypeDecl.flat (d : TypeDecl) : Bool := Member.flatList d.body

def CompilationUnit.flat (u : CompilationUnit) : Bool := u.types.all TypeDecl.flat

def Project.flat (p : Project) : Bool := p.units.all CompilationUnit.flat

/-- What is wrong with a member type. -/
abbrev twoKinds : Error := .duplicateField "kind"

theorem takes_place {i : Option Nat} {n : Nat} (fits : (Value.option .nat i).Fits n) :
    Reader.index.optional.Takes twoKinds (.option .nat i) true i := by
  refine takes_option (fun a same => ?_) (fun a => nofun)
  subst same
  exact takes_index fits

theorem takes_places {is : List Nat} {n : Nat} (fits : (Value.list .nat is).Fits n) :
    Reader.index.list.Takes twoKinds (.list .nat is) true is :=
  takes_each fun _ mem => takes_index (fits.items _ (List.mem_map_of_mem mem))

theorem takes_modifiers (ms : List Modifier) :
    Modifier.reader.list.Takes twoKinds (.list Modifier.json ms) true ms :=
  takes_each fun m _ => takes_choice (by cases m <;> rfl)

namespace NodeReaders

-- A node is an object, so that one level is used up for the nodes inside it, and the readers of those allow for one
-- node less. Records between two nodes use up a level too; there the same readers go on.
mutual
theorem takes_typeExpr (t : TypeExpr) {n : Nat} (fits : t.json.Fits n) :
    (allowing n).typeExpr.Takes twoKinds t.json true t := by
  cases t with
  | primitive name =>
    obtain ⟨n, rfl, -⟩ := Value.fits_object.mp fits
    exact takes_fields (u := (allowing n).typeUnion) "primitive" rfl (.cons (takes_text name) .nil)
      (by simp [typeUnion, Fields.names]) rfl rfl
  | simple name =>
    obtain ⟨n, rfl, -⟩ := Value.fits_object.mp fits
    exact takes_fields (u := (allowing n).typeUnion) "simple" rfl (.cons (takes_text name) .nil)
      (by simp [typeUnion, Fields.names]) rfl rfl
  | parameterized base arguments =>
    obtain ⟨n, rfl, each⟩ := Value.fits_object.mp fits
    simp only [List.forall_mem_cons] at each
    obtain ⟨-, fitsBase, fitsArguments, -⟩ := each
    exact takes_fields (u := (allowing n).typeUnion) "parameterized" rfl
      (.cons (takes_typeExpr base fitsBase) <| .cons (takes_list (takes_typeExprs arguments fitsArguments.items)) .nil)
      (by simp [typeUnion, Fields.names]) rfl rfl
  | array element dimensions =>
    obtain ⟨n, rfl, each⟩ := Value.fits_object.mp fits
    simp only [List.forall_mem_cons] at each
    obtain ⟨-, fitsElement, fitsDimensions, -⟩ := each
    exact takes_fields (u := (allowing n).typeUnion) "array" rfl
      (.cons (takes_typeExpr element fitsElement) <| .cons (takes_index fitsDimensions) .nil)
      (by simp [typeUnion, Fields.names]) rfl rfl
  | wildcard bound upper =>
    obtain ⟨n, rfl, each⟩ := Value.fits_object.mp fits
    simp only [List.forall_mem_cons] at each
    obtain ⟨-, fitsBound, -⟩ := each
    exact takes_fields (u := (allowing n).typeUnion) "wildcard" rfl
      (.cons (takes_typeExprOption bound fitsBound) <| .cons (takes_boolean upper) .nil)
      (by simp [typeUnion, Fields.names]) rfl rfl

theorem takes_typeExprs (ts : List TypeExpr) {n : Nat} (fits : ∀ v ∈ TypeExpr.jsonList ts, v.Fits n) :
    (allowing n).typeExpr.TakesAll twoKinds (TypeExpr.jsonList ts) true ts := by
  cases ts with
  | nil => exact .nil
  | cons t rest =>
    obtain ⟨first, others⟩ := List.forall_mem_cons.mp fits
    exact .cons (takes_typeExpr t first) (takes_typeExprs rest others)

theorem takes_typeExprOption (t : Option TypeExpr) {n : Nat} (fits : (TypeExpr.jsonOption t).Fits n) :
    (allowing n).typeExpr.optional.Takes twoKinds (TypeExpr.jsonOption t) true t := by
  cases t with
  | none => exact takes_none _
  | some t => exact takes_some (takes_typeExpr t fits) (by cases t <;> nofun)
end

theorem takes_typeRef (t : TypeRef) {n : Nat} (fits : t.json.Fits n) :
    (allowing n).typeRef.Takes twoKinds t.json true t := by
  have each := Value.Fits.fields fits
  simp only [List.forall_mem_cons] at each
  obtain ⟨written, binding, -⟩ := each
  exact takes_record rfl (.cons (takes_typeExpr t.written written) <| .cons (takes_place binding) .nil)
    (by simp [Fields.names]) rfl rfl

theorem takes_typeRefOption (t : Option TypeRef) {n : Nat} (fits : (Value.option TypeRef.json t).Fits n) :
    (allowing n).typeRef.optional.Takes twoKinds (.option TypeRef.json t) true t := by
  refine takes_option (fun a same => ?_) (fun a => nofun)
  subst same
  exact takes_typeRef a fits

theorem takes_typeRefs (ts : List TypeRef) {n : Nat} (fits : (Value.list TypeRef.json ts).Fits n) :
    (allowing n).typeRef.list.Takes twoKinds (.list TypeRef.json ts) true ts :=
  takes_each fun t mem => takes_typeRef t (fits.items _ (List.mem_map_of_mem mem))

theorem takes_parameterDecls (ps : List ParameterDecl) {n : Nat} (fits : (Value.list ParameterDecl.json ps).Fits n) :
    (allowing n).parameterDecl.list.Takes twoKinds (.list ParameterDecl.json ps) true ps := by
  refine takes_each fun p mem => ?_
  have each := Value.Fits.fields (fits.items _ (List.mem_map_of_mem mem))
  simp only [List.forall_mem_cons] at each
  obtain ⟨-, type, binding, -⟩ := each
  exact takes_record rfl
    (.cons (takes_text p.name) <| .cons (takes_typeRef p.type type) <| .cons (takes_place binding) .nil)
    (by simp [Fields.names]) rfl rfl

mutual
theorem takes_expr (e : Expr) {n : Nat} (fits : e.json.Fits n) :
    (allowing n).expr.Takes twoKinds e.json e.flat e := by
  cases e with
  | name identifier binding =>
    obtain ⟨n, rfl, each⟩ := Value.fits_object.mp fits
    simp only [List.forall_mem_cons] at each
    obtain ⟨-, -, binding, -⟩ := each
    exact takes_fields (u := (allowing n).exprUnion) "name" rfl
      (.cons (takes_text identifier) <| .cons (takes_place binding) .nil)
      (by simp [exprUnion, Fields.names]) rfl rfl
  | literal text =>
    obtain ⟨n, rfl, -⟩ := Value.fits_object.mp fits
    exact takes_fields (u := (allowing n).exprUnion) "literal" rfl (.cons (takes_text text) .nil)
      (by simp [exprUnion, Fields.names]) rfl rfl
  | assignment target value =>
    obtain ⟨n, rfl, each⟩ := Value.fits_object.mp fits
    simp only [List.forall_mem_cons] at each
    obtain ⟨-, fitsTarget, fitsValue, -⟩ := each
    exact takes_fields (u := (allowing n).exprUnion) "assignment" rfl
      (.cons (takes_expr target fitsTarget) <| .cons (takes_expr value fitsValue) .nil)
      (by simp [exprUnion, Fields.names]) rfl (by simp [Expr.flat])
  | invocation receiver name arguments binding =>
    obtain ⟨n, rfl, each⟩ := Value.fits_object.mp fits
    simp only [List.forall_mem_cons] at each
    obtain ⟨-, fitsReceiver, -, fitsArguments, fitsBinding, -⟩ := each
    exact takes_fields (u := (allowing n).exprUnion) "method_invocation" rfl
      (.cons (takes_exprOption receiver fitsReceiver) <| .cons (takes_text name) <|
       .cons (takes_list (takes_exprs arguments fitsArguments.items)) <| .cons (takes_place fitsBinding) .nil)
      (by simp [exprUnion, Fields.names]) rfl (by simp [Expr.flat])
  | creation type arguments binding anonymous =>
    obtain ⟨n, rfl, each⟩ := Value.fits_object.mp fits
    simp only [List.forall_mem_cons] at each
    obtain ⟨-, fitsType, fitsArguments, fitsBinding, fitsAnonymous, -⟩ := each
    exact takes_fields (u := (allowing n).exprUnion) "class_instance_creation" rfl
      (.cons (takes_typeRef type fitsType) <| .cons (takes_list (takes_exprs arguments fitsArguments.items)) <|
       .cons (takes_place fitsBinding) <| .cons (takes_anonymous anonymous fitsAnonymous) .nil)
      (by simp [exprUnion, Fields.names]) rfl (by simp [Expr.flat])
  | other text =>
    obtain ⟨n, rfl, -⟩ := Value.fits_object.mp fits
    exact takes_fields (u := (allowing n).exprUnion) "other" rfl (.cons (takes_text text) .nil)
      (by simp [exprUnion, Fields.names]) rfl rfl

theorem takes_exprOption (e : Option Expr) {n : Nat} (fits : (Expr.jsonOption e).Fits n) :
    (allowing n).expr.optional.Takes twoKinds (Expr.jsonOption e) (Expr.flatOption e) e := by
  cases e with
  | none => exact takes_none _
  | some e => exact takes_some (takes_expr e fits) (by cases e <;> nofun)

theorem takes_exprs (es : List Expr) {n : Nat} (fits : ∀ v ∈ Expr.jsonList es, v.Fits n) :
    (allowing n).expr.TakesAll twoKinds (Expr.jsonList es) (Expr.flatList es) es := by
  cases es with
  | nil => exact .nil
  | cons e rest =>
    obtain ⟨first, others⟩ := List.forall_mem_cons.mp fits
    exact .cons (takes_expr e first) (takes_exprs rest others)

theorem takes_fragments (fs : List Fragment) {n : Nat} (fits : ∀ v ∈ Fragment.jsonList fs, v.Fits n) :
    (allowing n).fragment.TakesAll twoKinds (Fragment.jsonList fs) (Fragment.flatList fs) fs := by
  cases fs with
  | nil => exact .nil
  | cons f rest =>
    obtain ⟨name, binding, initial⟩ := f
    obtain ⟨first, others⟩ := List.forall_mem_cons.mp fits
    have each := Value.Fits.fields first
    simp only [List.forall_mem_cons] at each
    obtain ⟨-, fitsBinding, fitsInitial, -⟩ := each
    have own : (allowing n).fragment.Takes twoKinds (Fragment.json ⟨name, binding, initial⟩) (Expr.flatOption initial)
        ⟨name, binding, initial⟩ :=
      takes_record rfl
        (.cons (takes_text name) <| .cons (takes_place fitsBinding) <|
         .cons (takes_exprOption initial fitsInitial) .nil)
        (by simp [Fields.names]) rfl (by simp)
    exact .cons own (takes_fragments rest others)

theorem takes_statement (s : Statement) {n : Nat} (fits : s.json.Fits n) :
    (allowing n).statement.Takes twoKinds s.json s.flat s := by
  cases s with
  | localVariable type fragments =>
    obtain ⟨n, rfl, each⟩ := Value.fits_object.mp fits
    simp only [List.forall_mem_cons] at each
    obtain ⟨-, fitsType, fitsFragments, -⟩ := each
    exact takes_fields (u := (allowing n).statementUnion) "local_variable" rfl
      (.cons (takes_typeRef type fitsType) <| .cons (takes_list (takes_fragments fragments fitsFragments.items)) .nil)
      (by simp [statementUnion, Fields.names]) rfl (by simp [Statement.flat])
  | expression e =>
    obtain ⟨n, rfl, each⟩ := Value.fits_object.mp fits
    simp only [List.forall_mem_cons] at each
    obtain ⟨-, fitsExpression, -⟩ := each
    exact takes_fields (u := (allowing n).statementUnion) "expression" rfl (.cons (takes_expr e fitsExpression) .nil)
      (by simp [statementUnion, Fields.names]) rfl (by simp [Statement.flat])
  | returned value =>
    obtain ⟨n, rfl, each⟩ := Value.fits_object.mp fits
    simp only [List.forall_mem_cons] at each
    obtain ⟨-, fitsValue, -⟩ := each
    exact takes_fields (u := (allowing n).statementUnion) "return" rfl (.cons (takes_exprOption value fitsValue) .nil)
      (by simp [statementUnion, Fields.names]) rfl (by simp [Statement.flat])
  | block statements =>
    obtain ⟨n, rfl, each⟩ := Value.fits_object.mp fits
    simp only [List.forall_mem_cons] at each
    obtain ⟨-, fitsStatements, -⟩ := each
    exact takes_fields (u := (allowing n).statementUnion) "block" rfl
      (.cons (takes_list (takes_statements statements fitsStatements.items)) .nil)
      (by simp [statementUnion, Fields.names]) rfl (by simp [Statement.flat])

theorem takes_statements (ss : List Statement) {n : Nat} (fits : ∀ v ∈ Statement.jsonList ss, v.Fits n) :
    (allowing n).statement.TakesAll twoKinds (Statement.jsonList ss) (Statement.flatList ss) ss := by
  cases ss with
  | nil => exact .nil
  | cons s rest =>
    obtain ⟨first, others⟩ := List.forall_mem_cons.mp fits
    exact .cons (takes_statement s first) (takes_statements rest others)

theorem takes_anonymous (a : Option AnonymousClass) {n : Nat} (fits : (AnonymousClass.jsonOption a).Fits n) :
    (allowing n).anonymousClass.optional.Takes twoKinds (AnonymousClass.jsonOption a) (AnonymousClass.flatOption a)
      a := by
  cases a with
  | none => exact takes_none _
  | some a =>
    obtain ⟨binding, body⟩ := a
    have each := Value.Fits.fields fits
    simp only [List.forall_mem_cons] at each
    obtain ⟨fitsBinding, fitsBody, -⟩ := each
    have own : (allowing n).anonymousClass.Takes twoKinds (AnonymousClass.json ⟨binding, body⟩) (Member.flatList body)
        ⟨binding, body⟩ :=
      takes_record rfl
        (.cons (takes_place fitsBinding) <| .cons (takes_list (takes_members body fitsBody.items)) .nil)
        (by simp [Fields.names]) rfl (by simp)
    exact takes_some own nofun

theorem takes_member (m : Member) {n : Nat} (fits : m.json.Fits n) :
    (allowing n).member.Takes twoKinds m.json m.flat m := by
  cases m with
  | field decl =>
    obtain ⟨type, modifiers, fragments⟩ := decl
    obtain ⟨n, rfl, each⟩ := Value.fits_object.mp fits
    simp only [List.forall_mem_cons, FieldDecl.fields] at each
    obtain ⟨-, fitsType, -, fitsFragments, -⟩ := each
    have own : (allowing n).fieldDecl.Takes twoKinds (.object (FieldDecl.fields ⟨type, modifiers, fragments⟩))
        (Fragment.flatList fragments) ⟨type, modifiers, fragments⟩ :=
      takes_record rfl
        (.cons (takes_typeRef type fitsType) <| .cons (takes_modifiers modifiers) <|
         .cons (takes_list (takes_fragments fragments fitsFragments.items)) .nil)
        (by simp [Fields.names]) rfl (by simp)
    exact takes_variant (u := (allowing n).memberUnion) "field" rfl (by simp [memberUnion, FieldDecl.fields])
      (takes_map own Member.field)
  | method decl =>
    obtain ⟨name, binding, isConstructor, returnType, parameters, modifiers, body⟩ := decl
    obtain ⟨n, rfl, each⟩ := Value.fits_object.mp fits
    simp only [List.forall_mem_cons, MethodDecl.fields] at each
    obtain ⟨-, -, fitsBinding, -, fitsReturned, fitsParameters, -, fitsBody, -⟩ := each
    have own : (allowing n).methodDecl.Takes twoKinds
        (.object (MethodDecl.fields ⟨name, binding, isConstructor, returnType, parameters, modifiers, body⟩))
        (Statement.flatList body) ⟨name, binding, isConstructor, returnType, parameters, modifiers, body⟩ :=
      takes_record rfl
        (.cons (takes_text name) <| .cons (takes_place fitsBinding) <| .cons (takes_boolean isConstructor) <|
         .cons (takes_typeRefOption returnType fitsReturned) <|
         .cons (takes_parameterDecls parameters fitsParameters) <| .cons (takes_modifiers modifiers) <|
         .cons (takes_list (takes_statements body fitsBody.items)) .nil)
        (by simp [Fields.names]) rfl (by simp)
    exact takes_variant (u := (allowing n).memberUnion) "method" rfl (by simp [memberUnion, MethodDecl.fields])
      (takes_map own Member.method)
  | initializer decl =>
    obtain ⟨isStatic, body⟩ := decl
    obtain ⟨n, rfl, each⟩ := Value.fits_object.mp fits
    simp only [List.forall_mem_cons, InitializerDecl.fields] at each
    obtain ⟨-, -, fitsBody, -⟩ := each
    have own : (allowing n).initializerDecl.Takes twoKinds (.object (InitializerDecl.fields ⟨isStatic, body⟩))
        (Statement.flatList body) ⟨isStatic, body⟩ :=
      takes_record rfl
        (.cons (takes_boolean isStatic) <| .cons (takes_list (takes_statements body fitsBody.items)) .nil)
        (by simp [Fields.names]) rfl (by simp)
    exact takes_variant (u := (allowing n).memberUnion) "initializer" rfl
      (by simp [memberUnion, InitializerDecl.fields]) (takes_map own Member.initializer)
  | type decl =>
    -- refused as soon as its own kind is met; what is in its body is not looked at
    obtain ⟨n, rfl, -⟩ := Value.fits_object.mp fits
    obtain ⟨name, kind, binding, modifiers, superclass, interfaces, body⟩ := decl
    exact takes_again (u := (allowing n).memberUnion) "type" rfl (by simp [memberUnion, TypeDecl.fields])
      (by simp [memberUnion, TypeDecl.fields]) _

theorem takes_members (ms : List Member) {n : Nat} (fits : ∀ v ∈ Member.jsonList ms, v.Fits n) :
    (allowing n).member.TakesAll twoKinds (Member.jsonList ms) (Member.flatList ms) ms := by
  cases ms with
  | nil => exact .nil
  | cons m rest =>
    obtain ⟨first, others⟩ := List.forall_mem_cons.mp fits
    exact .cons (takes_member m first) (takes_members rest others)
end

theorem takes_typeDecl (d : TypeDecl) {n : Nat} (fits : d.json.Fits n) :
    (allowing n).typeDecl.Takes twoKinds d.json d.flat d := by
  obtain ⟨name, kind, binding, modifiers, superclass, interfaces, body⟩ := d
  have each := Value.Fits.fields fits
  simp only [List.forall_mem_cons, TypeDecl.fields] at each
  obtain ⟨-, -, fitsBinding, -, fitsSuperclass, fitsInterfaces, fitsBody, -⟩ := each
  -- here the kind is a field like any other: outside of a body there is no tag
  have kindTaken : DeclarationKind.reader.Takes twoKinds (.text kind.name) true kind :=
    takes_choice (by cases kind <;> rfl)
  exact takes_record rfl
    (.cons (takes_text name) <| .cons kindTaken <| .cons (takes_place fitsBinding) <|
     .cons (takes_modifiers modifiers) <| .cons (takes_typeRefOption superclass fitsSuperclass) <|
     .cons (takes_typeRefs interfaces fitsInterfaces) <| .cons (takes_list (takes_members body fitsBody.items)) .nil)
    (by simp [Fields.names]) rfl (by simp [TypeDecl.flat])

end NodeReaders

theorem takes_texts (names : List String) : Reader.text.list.Takes twoKinds (.list .text names) true names :=
  takes_each fun s _ => takes_text s

theorem takes_textOption (name : Option String) : Reader.text.optional.Takes twoKinds (.option .text name) true name :=
  takes_option (fun s _ => takes_text s) fun _ => nofun

theorem TypeBinding.takes (b : TypeBinding) {n : Nat} (fits : b.json.Fits n) :
    TypeBinding.reader.Takes twoKinds b.json true b := by
  have each := Value.Fits.fields fits
  simp only [List.forall_mem_cons] at each
  obtain ⟨-, -, -, fitsDeclaring, -, -, -, -, -, -, fitsSuperclass, fitsInterfaces, fitsErasure, fitsArguments, -⟩ :=
    each
  exact takes_record rfl
    (.cons (takes_text b.qualifiedName) <| .cons (takes_text b.name) <| .cons (takes_textOption b.package) <|
     .cons (takes_place fitsDeclaring) <| .cons (takes_modifiers b.modifiers) <| .cons (takes_boolean b.isPrimitive) <|
     .cons (takes_boolean b.isParameterized) <| .cons (takes_boolean b.isGeneric) <| .cons (takes_boolean b.isEnum) <|
     .cons (takes_boolean b.isInterface) <| .cons (takes_place fitsSuperclass) <| .cons (takes_places fitsInterfaces) <|
     .cons (takes_place fitsErasure) <| .cons (takes_places fitsArguments) <| .cons (takes_texts b.typeParameters) .nil)
    (by simp [Fields.names]) rfl rfl

theorem MethodBinding.takes (b : MethodBinding) {n : Nat} (fits : b.json.Fits n) :
    MethodBinding.reader.Takes twoKinds b.json true b := by
  have each := Value.Fits.fields fits
  simp only [List.forall_mem_cons] at each
  obtain ⟨-, fitsDeclaring, fitsParameters, fitsReturned, -⟩ := each
  exact takes_record rfl
    (.cons (takes_text b.name) <| .cons (takes_place fitsDeclaring) <| .cons (takes_places fitsParameters) <|
     .cons (takes_place fitsReturned) <| .cons (takes_boolean b.isConstructor) <|
     .cons (takes_modifiers b.modifiers) .nil)
    (by simp [Fields.names]) rfl rfl

theorem VariableBinding.takes (b : VariableBinding) {n : Nat} (fits : b.json.Fits n) :
    VariableBinding.reader.Takes twoKinds b.json true b := by
  have each := Value.Fits.fields fits
  simp only [List.forall_mem_cons] at each
  obtain ⟨-, -, fitsDeclaring, fitsType, -⟩ := each
  have kindTaken : VariableKind.reader.Takes twoKinds (.text b.kind.name) true b.kind :=
    takes_choice (by cases b.kind <;> rfl)
  exact takes_record rfl
    (.cons (takes_text b.name) <| .cons kindTaken <| .cons (takes_place fitsDeclaring) <|
     .cons (takes_place fitsType) <| .cons (takes_modifiers b.modifiers) .nil)
    (by simp [Fields.names]) rfl rfl

theorem BindingTable.takes (t : BindingTable) {n : Nat} (fits : t.json.Fits n) :
    BindingTable.reader.Takes twoKinds t.json true t := by
  have each := Value.Fits.fields fits
  simp only [List.forall_mem_cons] at each
  obtain ⟨fitsTypes, fitsMethods, fitsVars, -⟩ := each
  have types := takes_each fun b mem => TypeBinding.takes b (fitsTypes.items _ (List.mem_map_of_mem mem))
  have methods := takes_each fun b mem => MethodBinding.takes b (fitsMethods.items _ (List.mem_map_of_mem mem))
  have vars := takes_each fun b mem => VariableBinding.takes b (fitsVars.items _ (List.mem_map_of_mem mem))
  exact takes_record rfl (.cons types <| .cons methods <| .cons vars .nil) (by simp [Fields.names]) rfl rfl

theorem CompilationUnit.takes (u : CompilationUnit) (fits : u.json.Fits Json.nestingLimit) :
    CompilationUnit.reader.Takes twoKinds u.json u.flat u := by
  have each := Value.Fits.fields fits
  simp only [List.forall_mem_cons] at each
  obtain ⟨-, -, fitsTypes, -⟩ := each
  have package : packageReader.optional.Takes twoKinds (.option packageJson u.package) true u.package :=
    takes_option (fun name _ => takes_record rfl (.cons (takes_text name) .nil) (by simp [Fields.names]) rfl rfl)
      fun _ => nofun
  have types := takes_list (takesAll_map TypeDecl.flat fun d mem =>
    NodeReaders.takes_typeDecl d (fitsTypes.items _ (List.mem_map_of_mem mem)))
  exact takes_record rfl (.cons (takes_textOption u.path) <| .cons package <| .cons types .nil)
    (by simp [Fields.names]) rfl (by simp [CompilationUnit.flat])

theorem Project.takes (p : Project) (fits : p.json.Fits Json.nestingLimit) :
    Project.reader.Takes twoKinds p.json p.flat p := by
  have each := Value.Fits.fields fits
  simp only [List.forall_mem_cons] at each
  obtain ⟨fitsBindings, fitsUnits, -⟩ := each
  have units := takes_list (takesAll_map CompilationUnit.flat fun u mem =>
    CompilationUnit.takes u (fitsUnits.items _ (List.mem_map_of_mem mem)))
  exact takes_record rfl (.cons (p.bindings.takes fitsBindings) <| .cons units .nil) (by simp [Fields.names]) rfl
    (by simp [Project.flat])

/-- The compact text of a project, of indices of 32 bits and within the nesting limit, is read back as the project if no
member type is in it. If there is one, in the body of a type or of an anonymous class at any depth, the text is refused,
and for no other reason than that a field called `kind` occurs twice. -/
theorem Project.parse_json (p : Project) (fits : p.json.Fits Json.nestingLimit) :
    (p.flat = true → Project.parse p.json.compact = .ok p) ∧
      (p.flat = false → ∃ e, Project.parse p.json.compact = .error e ∧ e.errorClass = .unsuitable ∧
        e.message = "duplicate field `kind`") := by
  have takes := p.takes fits
  have parsed : Project.parse p.json.compact = Json.verdict twoKinds p.flat p :=
    (Reader.parse_compact takes.agrees fits).trans takes.check
  constructor
  · intro flat
    rw [parsed, flat]
    rfl
  · intro deep
    refine ⟨twoKinds, ?_, rfl, by decide⟩
    rw [parsed, deep]
    rfl

/-- A class with a field whose initial value is an instance of an anonymous class with one member. -/
def classAround (m : Member) : Project where
  bindings := { types := [.inPackage "p" "A"] }
  units := [{ package := some "p", types := [⟨"A", .classType, some 0, [.publicAccess], none, [],
    [.field ⟨{ written := .simple "B" }, [],
      [⟨"f", none, some (.creation { written := .simple "B" } [] none (some ⟨none, [m]⟩))⟩]⟩]⟩] }]

def memberInitializer : Member := .initializer ⟨true, [.returned none]⟩

def memberType : Member := .type ⟨"C", .enumType, none, [], none, [], []⟩

theorem classAround_fits : (classAround memberInitializer).json.Fits Json.nestingLimit ∧
    (classAround memberType).json.Fits Json.nestingLimit := by
  have numbers : (classAround memberInitializer).json.numbers = [.integer 0] ∧
      (classAround memberType).json.numbers = [.integer 0] := ⟨rfl, rfl⟩
  have isIndex : ∀ n ∈ [Json.Number.integer 0], n.IsIndex := List.forall_mem_singleton.mpr ⟨0, by decide, rfl⟩
  exact ⟨⟨by decide +kernel, numbers.1 ▸ isIndex⟩, ⟨by decide +kernel, numbers.2 ▸ isIndex⟩⟩

theorem Project.parse_json_classAround :
    ((classAround memberInitializer).flat = true ∧
      Project.parse (classAround memberInitializer).json.compact = .ok (classAround memberInitializer)) ∧
    (classAround memberType).flat = false ∧
      ∃ e, Project.parse (classAround memberType).json.compact = .error e ∧ e.errorClass = .unsuitable ∧
        e.message = "duplicate field `kind`" :=
  ⟨⟨rfl, (Project.parse_json _ classAround_fits.1).1 rfl⟩, rfl, (Project.parse_json _ classAround_fits.2).2 rfl⟩

end Java

end Famix
