import Famix.Mse.Description
import Famix.Proofs.Reading

/-!
Where the keying makes no difference. It is asked for only when a field is declared without a binding to go by. What is
done for any other mark of a source is the same under both keyings, and so are the models of sources in which every
field is bound.
-/
namespace Famix

open Java (BindingTable Fragment FieldDecl TypeRef TypeDecl MethodDecl ParameterDecl Project)

/-- The table has the field that a fragment declares. -/
def Java.BindingTable.BindsField (table : BindingTable) (fragment : Fragment) : Prop :=
  ∃ b ∈ fragment.binding.bind table.variableAt?, b.kind = .field

instance (table : BindingTable) (fragment : Fragment) : Decidable (table.BindsField fragment) :=
  inferInstanceAs (Decidable (∃ b ∈ fragment.binding.bind table.variableAt?, b.kind = .field))

namespace Draft

variable {table : BindingTable} (k l : AttributeKeying)

theorem inheritRefs_keying (id : TypeId) (ts : List TypeRef) :
    inheritRefs ⟨table, k⟩ id ts = inheritRefs ⟨table, l⟩ id ts := by
  induction ts with
  | nil => rfl
  | cons t ts ih => exact congrArg (inheritRef ⟨table, k⟩ id t >>= fun _ => ·) ih

theorem declareParameters_keying (method : MethodId) (parameters : List ParameterDecl) :
    declareParameters ⟨table, k⟩ method parameters = declareParameters ⟨table, l⟩ method parameters := by
  induction parameters with
  | nil => rfl
  | cons p parameters ih => exact congrArg (parameterOfDecl ⟨table, k⟩ p method >>= fun _ => ·) ih

theorem typeOfDecl_keying (decl : TypeDecl) : typeOfDecl ⟨table, k⟩ decl = typeOfDecl ⟨table, l⟩ decl := by
  have unbound : ∀ decl, typeOfUnboundDecl ⟨table, k⟩ decl = typeOfUnboundDecl ⟨table, l⟩ decl := by
    intro decl
    unfold typeOfUnboundDecl
    simp only [inheritRefs_keying k l]
  unfold typeOfDecl
  simp only [unbound]
  rfl

theorem methodWithParameters_keying (decl : MethodDecl) :
    methodWithParameters ⟨table, k⟩ decl = methodWithParameters ⟨table, l⟩ decl := by
  unfold methodWithParameters
  simp only [declareParameters_keying k l]
  rfl

theorem fieldBinding?_of_bindsField {fragment : Fragment} (bound : table.BindsField fragment) :
    ∃ b, ∀ keying, fieldBinding? ⟨table, keying⟩ fragment = some b := by
  obtain ⟨b, listed, kind⟩ := bound
  obtain ⟨i, binding, found⟩ := Option.bind_eq_some_iff.mp listed
  refine ⟨b, fun keying => ?_⟩
  simp [fieldBinding?, binding, found, kind]

/-- A field that is bound is asked for by its binding, and the keying is not read. -/
theorem attributeOfFragment_keying {fragment : Fragment} (bound : table.BindsField fragment) (field : FieldDecl) :
    attributeOfFragment ⟨table, k⟩ fragment field = attributeOfFragment ⟨table, l⟩ fragment field := by
  obtain ⟨b, found⟩ := fieldBinding?_of_bindsField bound
  unfold attributeOfFragment
  rw [found k, found l]
  rfl

end Draft

namespace Mark

/-- The fragment of a mark that declares a field. -/
def fieldFragment? : Mark → Option Fragment
  | .field fragment _ => some fragment
  | _ => none

variable {table : BindingTable} (k l : AttributeKeying)

/-- The step lemma: a mark is acted on in the same way under both keyings, unless it is a field without a binding. -/
theorem act_keying {m : Mark} (bound : ∀ fragment ∈ m.fieldFragment?, table.BindsField fragment) (d : Draft) :
    m.act ⟨table, k⟩ d = m.act ⟨table, l⟩ d := by
  suffices same : m.prepare ⟨table, k⟩ = m.prepare ⟨table, l⟩ by
    unfold act
    rw [same]
  cases m with
  | type decl => simp only [prepare, Draft.typeOfDecl_keying k l]
  | method decl => simp only [prepare, Draft.methodWithParameters_keying k l]
  | field fragment field => simp only [prepare, Draft.attributeOfFragment_keying k l (bound fragment rfl)]
  | _ => rfl

/-- The run lemma: so are all marks of a source in which every field is bound. -/
theorem actAll_keying {marks : List Mark}
    (bound : ∀ fragment ∈ marks.filterMap fieldFragment?, table.BindsField fragment) (d : Draft) :
    actAll ⟨table, k⟩ marks d = actAll ⟨table, l⟩ marks d := by
  induction marks generalizing d with
  | nil => simp only [actAll, List.foldl_nil]
  | cons m rest ih =>
    have own : ∀ fragment ∈ m.fieldFragment?, table.BindsField fragment := by
      intro fragment mem
      exact bound fragment (List.mem_filterMap.mpr ⟨m, List.mem_cons_self, mem⟩)
    have others : ∀ fragment ∈ rest.filterMap fieldFragment?, table.BindsField fragment := by
      intro fragment mem
      obtain ⟨n, inside, declares⟩ := List.mem_filterMap.mp mem
      exact bound fragment (List.mem_filterMap.mpr ⟨n, List.mem_cons_of_mem m inside, declares⟩)
    rw [actAll_cons, actAll_cons, act_keying k l own, ih others]

end Mark

/-- The fragments of a project that declare fields, those in the bodies of anonymous classes among them. -/
def Java.Project.fieldFragments (project : Project) : List Fragment :=
  (readUnits project.units).filterMap Mark.fieldFragment?

/-- The keying makes a difference only to fields without a binding. If every fragment of a project that declares a field
is bound to a field of the table, both keyings lead to the same model, with the same summary and the same text. -/
theorem buildModel_indifferent (project : Project)
    (bound : ∀ fragment ∈ project.fieldFragments, project.bindings.BindsField fragment) :
    buildModel project .keyed = buildModel project .legacy ∧
      (buildModel project .keyed).summary = (buildModel project .legacy).summary ∧
      (buildModel project .keyed).mse = (buildModel project .legacy).mse := by
  have same : buildModel project .keyed = buildModel project .legacy := by
    rw [buildModel_reads, buildModel_reads, Mark.actAll_keying .keyed .legacy bound]
  exact ⟨same, congrArg Repository.summary same, congrArg Repository.mse same⟩

/-- A class with a field, whose initial value is an anonymous class with a field of the same name. -/
def nestedFields : Project where
  bindings :=
    { types := [.inPackage "p" "A"]
      vars := [{ name := "f", kind := .field, declaringClass := some 0 }, { name := "f", kind := .field }] }
  units := [{ package := some "p", types := [⟨"A", .classType, some 0, [], none, [],
    [.field ⟨⟨.simple "A", some 0⟩, [], [⟨"f", some 0, some (.creation ⟨.simple "A", some 0⟩ [] none (some ⟨none,
      [.field ⟨⟨.simple "int", none⟩, [], [⟨"f", some 1, none⟩]⟩]⟩))⟩]⟩]⟩] }]

theorem buildModel_indifferent_nested :
    nestedFields.fieldFragments.length = 2 ∧
      (∀ fragment ∈ nestedFields.fieldFragments, nestedFields.bindings.BindsField fragment) ∧
      buildModel nestedFields .keyed = buildModel nestedFields .legacy ∧
      (buildModel nestedFields .keyed).summary = (buildModel nestedFields .legacy).summary ∧
      (buildModel nestedFields .keyed).mse = (buildModel nestedFields .legacy).mse := by
  have bound : ∀ fragment ∈ nestedFields.fieldFragments, nestedFields.bindings.BindsField fragment := by decide
  exact ⟨rfl, bound, buildModel_indifferent nestedFields bound⟩

/-- Without bindings, two fields of a class are one under the legacy keying. -/
example : let project : Project := { units := [{ package := none, types := [⟨"A", .classType, none, [], none, [],
      [.field ⟨⟨.simple "int", none⟩, [], [⟨"f", none, none⟩, ⟨"g", none, none⟩]⟩]⟩] }] }
    (buildModel project .keyed).summary.attributes = 2 ∧ (buildModel project .legacy).summary.attributes = 1 := by
  decide +kernel

end Famix
