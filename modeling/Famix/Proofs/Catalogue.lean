import Famix.Proofs.Membership
import Famix.Proofs.Upkeep

/-!
Types under their names. However fields are filed, a type is filed under the name that follows from its container as
soon as the names in the table are consistent, and a name with a dollar sign is the number of an anonymous class.
References to types keep it so, and link no type that was there before.
-/
namespace Famix

open Java (BindingTable TypeBinding TypeIndex)
open Repository (Keeps Settled)

/-! The names of anonymous classes. -/

/-- The name of an anonymous class whose container holds so many types already. -/
def anonymousName (n : Nat) : String := "$" ++ toString n

/-- Whether a name is a dollar sign and a number. -/
def isAnonymousName (name : String) : Bool :=
  match name.toList with
  | '$' :: digits => !digits.isEmpty && digits.all Char.isDigit
  | _ => false

theorem toList_anonymousName (n : Nat) : (anonymousName n).toList = '$' :: Nat.toDigits 10 n := by
  simp [anonymousName]

theorem isAnonymousName_anonymousName (n : Nat) : isAnonymousName (anonymousName n) = true := by
  have digits : (Nat.toDigits 10 n).all Char.isDigit = true :=
    List.all_eq_true.mpr fun _ digit => Nat.isDigit_of_mem_toDigits (by decide) (by decide) digit
  simp [isAnonymousName, toList_anonymousName, digits, Nat.toDigits_ne_nil]

theorem isAnonymousName_of_not_mem {name : String} (plain : '$' ∉ name.toList) : isAnonymousName name = false := by
  unfold isAnonymousName
  split
  · next digits shape => simp [shape] at plain
  · rfl

theorem anonymousName_inj {m n : Nat} (same : anonymousName m = anonymousName n) : m = n := by
  have texts := congrArg String.toList same
  rw [toList_anonymousName, toList_anonymousName] at texts
  have read := congrArg (Nat.ofDigitChars 10 · 0) (List.cons.inj texts).2
  simpa only [Nat.ofDigitChars_ten_toDigits] using read

theorem dot_not_mem_anonymousName (n : Nat) : '.' ∉ (anonymousName n).toList := by
  rw [toList_anonymousName]
  intro mem
  rcases List.mem_cons.mp mem with same | digit
  · exact absurd same (by decide)
  · exact absurd (Nat.isDigit_of_mem_toDigits (by decide) (by decide) digit) (by decide)

/-- The name of an anonymous class is what stands after the last dot, so that a name without a dollar sign never ends a
qualified name like that of the class. -/
theorem joinName_ne_anonymous {name : String} (plain : '$' ∉ name.toList) (outer owner : String) (n : Nat) :
    joinName outer name ≠ owner ++ "." ++ anonymousName n := by
  intro same
  have texts := congrArg String.toList same
  rw [toList_dotted] at texts
  unfold joinName at texts
  split at texts
  · apply plain
    simp [texts, toList_anonymousName]
  · rw [toList_dotted] at texts
    have short : '.' :: name.toList <:+ owner.toList ++ '.' :: (anonymousName n).toList := ⟨_, texts⟩
    have long : (anonymousName n).toList <:+ owner.toList ++ '.' :: (anonymousName n).toList :=
      (List.suffix_cons _ _).trans (List.suffix_append _ _)
    rcases List.suffix_or_suffix_of_suffix short long with within | within
    · exact dot_not_mem_anonymousName n (within.subset List.mem_cons_self)
    · have dollar : '$' ∈ '.' :: name.toList := within.subset (by simp [toList_anonymousName])
      exact plain (by simpa using dollar)

/-- Whether neither the name of a binding nor those of its type parameters have a dollar sign. -/
def Java.TypeBinding.Undollared (b : TypeBinding) : Prop :=
  '$' ∉ b.name.toList ∧ ∀ name ∈ b.typeParameters, '$' ∉ name.toList

instance (b : TypeBinding) : Decidable b.Undollared := instDecidableAnd

/-! Changes and the types that there are. -/

namespace Change

theorem same_types {c : Change} (other : ∀ key name container kind, c ≠ .type key name container kind) (d : Draft) :
    (c.apply d).repository.types.size = d.repository.types.size ∧
      (c.apply d).repository.typesByContainer = d.repository.typesByContainer ∧
      (c.apply d).registry.types = d.registry.types := by
  have result := c.result d
  generalize c.apply d = e at result ⊢
  cases result with
  | known | space | method | field | parameter => exact ⟨rfl, rfl, rfl⟩
  | type => exact absurd rfl (other _ _ _ _)
  | direct c direct =>
    cases c with
    | space | type | method | field | parameter => cases direct
    | typeModifiers | typeKind | typeOpened | typeDeclared => exact ⟨Array.size_modify, rfl, rfl⟩
    | _ => exact ⟨rfl, rfl, rfl⟩

theorem namespaces_named (c : Change) {d : Draft} (agree : d.registry.Matches d.repository)
    (names : d.registry.namespaces.Names d.repository.namespaceName) :
    (c.apply d).registry.namespaces.Names (c.apply d).repository.namespaceName := by
  have kept : d.registry.namespaces.Names (c.apply d).repository.namespaceName := by
    refine names.keep fun key id known => ?_
    have there : d.repository.ns? id = some _ := Array.getElem?_eq_getElem (agree.namespaces.leads key id known)
    obtain ⟨n, after, same⟩ := (c.keeps d).namespaces id.index _ there
    rw [Repository.namespaceName_eq after, Repository.namespaceName_eq there, same]
  have result := c.result d
  generalize c.apply d = e at kept result ⊢
  cases result with
  | @space name fresh =>
    have known : (d.addNamespace name fresh).repository.ns? ⟨d.repository.namespaces.size⟩ =
        some { NamedEntity.stub name with id := ⟨d.repository.namespaces.size⟩ } := Array.getElem?_push_size
    exact kept.insert (Repository.namespaceName_eq known)
  | known | type | method | field | parameter => exact kept
  | direct c direct =>
    cases c with
    | space | type | method | field | parameter => cases direct
    | _ => exact kept

end Change

namespace Repository

/-- The chain of containers from `c` ends, within the bound that names are made with. -/
def Anchored (r : Repository) (c : Container) : Prop := Settled r (r.types.size + r.methods.size + 1) c

theorem Anchored.keep {r s : Repository} {c : Container} (h : r.Anchored c) (keeps : r.Keeps s) : s.Anchored c :=
  (Settled.keep h keeps).1.mono (Nat.succ_le_succ (Nat.add_le_add (keeps.counts .type) (keeps.counts .method)))

/-- How many types are named like anonymous classes. -/
def anonymousCount (r : Repository) : Nat := r.types.toList.countP (isAnonymousName ·.name)

theorem anonymousCount_keep {r s : Repository} (keeps : r.Keeps s) (size : s.types.size = r.types.size) :
    s.anonymousCount = r.anonymousCount := by
  have names : s.types.toList.map (·.name) = r.types.toList.map (·.name) := by
    refine List.ext_getElem (by simp [size]) fun i left right => ?_
    have inside : i < r.types.size := by simpa using right
    obtain ⟨t, known, same, -⟩ := keeps.types i r.types[i] (Array.getElem?_eq_getElem inside)
    obtain ⟨within, rfl⟩ := Array.getElem?_eq_some_iff.mp known
    simpa using same
  have count : ∀ q : Repository, q.anonymousCount = (q.types.toList.map (·.name)).countP isAnonymousName := by
    intro q
    rw [List.countP_map]
    rfl
  rw [count, count, names]

end Repository

namespace Draft

section Added

variable {d : Draft} {key name : String} {c : Container} {kind : TypeKind} (fresh : d.registry.types.get? key = none)

theorem apply_type : (Change.type key name c kind).apply d = d.addType key name c kind fresh :=
  congrArg Prod.snd (internType_of_none fresh)

theorem keeps_addType : d.repository.Keeps (d.addType key name c kind fresh).repository :=
  apply_type fresh ▸ (Change.type key name c kind).keeps d

theorem type?_addType_new : (d.addType key name c kind fresh).repository.type? ⟨d.repository.types.size⟩ = some
    { NamedEntity.stub name with id := ⟨d.repository.types.size⟩, container := c, kind } := Array.getElem?_push_size

theorem type?_addType_old {id : TypeId} (old : Present id d) :
    (d.addType key name c kind fresh).repository.type? id = d.repository.type? id :=
  (Array.getElem?_push_lt old).trans (Array.getElem?_eq_getElem old).symm

theorem present_addType {id : TypeId} :
    Present id (d.addType key name c kind fresh) ↔ Present id d ∨ id = ⟨d.repository.types.size⟩ :=
  Repository.lt_size_push _ _ id

theorem typesIn_addType (other : Container) : (d.addType key name c kind fresh).repository.typesIn other =
    d.repository.typesIn other ++ if other = c then [⟨d.repository.types.size⟩] else [] := Postings.of_file ..

theorem anchored_addType (outer : d.repository.Anchored c) :
    (d.addType key name c kind fresh).repository.Anchored (.type ⟨d.repository.types.size⟩) := by
  refine .type (type?_addType_new fresh) ((Settled.keep outer (keeps_addType fresh)).1.mono ?_)
  have size : (d.addType key name c kind fresh).repository.types.size = d.repository.types.size + 1 :=
    Array.size_push _
  have methods : (d.addType key name c kind fresh).repository.methods.size = d.repository.methods.size := rfl
  omega

theorem typeName_addType (outer : d.repository.Anchored c) :
    (d.addType key name c kind fresh).repository.typeName ⟨d.repository.types.size⟩ =
      d.repository.childName c name := by
  rw [(anchored_addType fresh outer).typeName_eq (type?_addType_new fresh),
    outer.containerName_keep (keeps_addType fresh)]
  rfl

end Added

/-- Each type is filed under its name, and a type with a dollar sign in its name is numbered by how many types its
container held, and now holds more. -/
structure Catalogued (d : Draft) : Prop where
  agree : d.registry.Matches d.repository
  namespaces : d.registry.namespaces.Names d.repository.namespaceName
  types : d.registry.types.Names d.repository.typeName
  anchored : ∀ id : TypeId, Present id d → d.repository.Anchored (.type id)
  nonempty : ∀ id : TypeId, Present id d → d.repository.typeName id ≠ ""
  numbered : ∀ id t, d.repository.type? id = some t → '$' ∈ t.name.toList → ∃ n owner, t.name = anonymousName n ∧
    t.container = .type owner ∧ n < (d.repository.typesIn (.type owner)).length

namespace Catalogued

variable {d e : Draft}

theorem empty : Catalogued {} where
  agree := .empty
  namespaces := nofun
  types := nofun
  anchored _ there := absurd there (Nat.not_lt_zero _)
  nonempty _ there := absurd there (Nat.not_lt_zero _)
  numbered _ _ known := by cases known

theorem present (h : Catalogued d) {key : String} {id : TypeId} (known : d.registry.types.get? key = some id) :
    Present id d := h.agree.types.leads key id known

theorem typeName_eq (h : Catalogued d) {id : TypeId} {t : TypeEntity} (known : d.repository.type? id = some t) :
    d.repository.typeName id = joinName (d.repository.containerName t.container) t.name :=
  (h.anchored id (Repository.holds_type known)).typeName_eq known

theorem childName_type (h : Catalogued d) {key : String} {id : TypeId} (known : d.registry.types.get? key = some id)
    (name : String) : d.repository.childName (.type id) name = key ++ "." ++ name := by
  have same := h.types key id known
  exact Repository.childName_type same (same ▸ h.nonempty id (h.present known)) name

theorem childName_namespace (h : Catalogued d) {key : String} {id : NamespaceId}
    (known : d.registry.namespaces.get? key = some id) (name : String) :
    d.repository.childName (.ns id) name = joinName key name := by
  rw [← h.namespaces key id known]
  rfl

theorem anchored_namespace (h : Catalogued d) {key : String} {id : NamespaceId}
    (known : d.registry.namespaces.get? key = some id) : d.repository.Anchored (.ns id) :=
  .ns (Array.getElem?_eq_getElem (h.agree.namespaces.leads key id known))

theorem eq_of_typeName (h : Catalogued d) {id other : TypeId} (here : Present id d) (there : Present other d)
    (same : d.repository.typeName id = d.repository.typeName other) : id = other :=
  h.types.eq_of_name h.agree.types here there same

/-- The name under which an anonymous class is filed is never taken. -/
theorem fresh (h : Catalogued d) {owner : TypeId} (there : Present owner d) :
    d.registry.types.get? (d.repository.childName (.type owner)
      (anonymousName (d.repository.typesIn (.type owner)).length)) = none := by
  rw [Repository.childName_type rfl (h.nonempty owner there)]
  refine Option.eq_none_iff_forall_ne_some.mpr fun id taken => ?_
  obtain ⟨t, known⟩ : ∃ t, d.repository.type? id = some t := ⟨_, Array.getElem?_eq_getElem (h.present taken)⟩
  have whole := (h.typeName_eq known).symm.trans (h.types _ id taken)
  by_cases dollar : '$' ∈ t.name.toList
  · -- another anonymous class, of the same container and number; but the numbers that are given are less
    obtain ⟨n, other, name, container, less⟩ := h.numbered id t known dollar
    have held : Present other d := by
      have outer := Settled.container_holds (h.anchored id (h.present taken)) known
      rwa [container] at outer
    rw [name, container] at whole
    have texts := congrArg String.toList ((joinName_of_ne (h.nonempty other held) _).symm.trans whole)
    rw [toList_dotted, toList_dotted] at texts
    obtain ⟨outer, number⟩ :=
      append_cons_inj (dot_not_mem_anonymousName _) (dot_not_mem_anonymousName _) texts
    have owned : other = owner := h.eq_of_typeName held there (String.toList_inj.mp outer)
    have counted := anonymousName_inj (String.toList_inj.mp number)
    rw [owned, counted] at less
    exact Nat.lt_irrefl _ less
  · exact joinName_ne_anonymous dollar _ _ _ whole

/-- Types that have the same container and the same name are the same. -/
theorem eq_of_place (h : Catalogued d) {id other : TypeId} {t u : TypeEntity} (here : d.repository.type? id = some t)
    (there : d.repository.type? other = some u) (container : t.container = u.container) (name : t.name = u.name) :
    id = other := by
  refine h.eq_of_typeName (Repository.holds_type here) (Repository.holds_type there) ?_
  rw [h.typeName_eq here, h.typeName_eq there, container, name]

/-- What changes no more than entries that are there, and no name, leaves all types where they are filed. -/
theorem keep (h : Catalogued d) {c : Change} (other : ∀ key name container kind, c ≠ .type key name container kind) :
    Catalogued (c.apply d) := by
  have keeps := c.keeps d
  obtain ⟨size, postings, keys⟩ := Change.same_types other d
  have old : ∀ id : TypeId, Present id (c.apply d) → Present id d := fun id there => Nat.lt_of_lt_of_eq there size
  have name : ∀ id : TypeId, Present id d → (c.apply d).repository.typeName id = d.repository.typeName id :=
    fun id there => (h.anchored id there).containerName_keep keeps
  refine ⟨h.agree.change c, c.namespaces_named h.agree h.namespaces, ?_, ?_, ?_, ?_⟩
  · rw [keys]
    exact h.types.keep fun key id known => name id (h.present known)
  · exact fun id there => (h.anchored id (old id there)).keep keeps
  · intro id there
    rw [name id (old id there)]
    exact h.nonempty id (old id there)
  · intro id t known dollar
    have held : d.repository.type? id = some _ :=
      Array.getElem?_eq_getElem (old id (Repository.holds_type known))
    obtain ⟨u, kept, sameName, sameContainer⟩ := keeps.types id.index _ held
    cases known.symm.trans kept
    obtain ⟨n, owner, numbered, container, less⟩ := h.numbered id _ held (sameName ▸ dollar)
    refine ⟨n, owner, sameName.trans numbered, sameContainer.trans container, ?_⟩
    rw [Repository.typesIn, postings]
    exact less

/-- A new type may be filed under its name, if it is numbered rightly when its name has a dollar sign. -/
theorem add (h : Catalogued d) {key name : String} {c : Container} {kind : TypeKind}
    (fresh : d.registry.types.get? key = none) (outer : d.repository.Anchored c)
    (named : d.repository.childName c name = key) (nonempty : key ≠ "")
    (numbered : '$' ∈ name.toList → ∃ owner, c = .type owner ∧ name = anonymousName (d.repository.typesIn c).length) :
    Catalogued (d.addType key name c kind fresh) := by
  have keeps : d.repository.Keeps (d.addType key name c kind fresh).repository := keeps_addType fresh
  have oldName : ∀ id : TypeId, Present id d →
      (d.addType key name c kind fresh).repository.typeName id = d.repository.typeName id :=
    fun id there => (h.anchored id there).containerName_keep keeps
  have newName : (d.addType key name c kind fresh).repository.typeName ⟨d.repository.types.size⟩ = key :=
    (typeName_addType fresh outer).trans named
  refine ⟨apply_type fresh ▸ h.agree.change (.type key name c kind),
    apply_type fresh ▸ (Change.type key name c kind).namespaces_named h.agree h.namespaces, ?_, ?_, ?_, ?_⟩
  · exact (h.types.keep fun key id known => oldName id (h.present known)).insert newName
  · intro id there
    rcases (present_addType fresh).mp there with old | rfl
    · exact (h.anchored id old).keep keeps
    · exact anchored_addType fresh outer
  · intro id there
    rcases (present_addType fresh).mp there with old | rfl
    · rw [oldName id old]
      exact h.nonempty id old
    · rw [newName]
      exact nonempty
  · intro id t there dollar
    rcases (present_addType fresh).mp (Repository.holds_type there) with old | rfl
    · rw [type?_addType_old fresh old] at there
      obtain ⟨n, owner, same, container, less⟩ := h.numbered id t there dollar
      refine ⟨n, owner, same, container, ?_⟩
      rw [typesIn_addType fresh, List.length_append]
      omega
    · cases there.symm.trans (type?_addType_new fresh)
      obtain ⟨owner, rfl, same⟩ := numbered dollar
      refine ⟨_, owner, same, rfl, ?_⟩
      rw [typesIn_addType fresh, if_pos rfl, List.length_append]
      exact Nat.lt_succ_self _

end Catalogued

/-- A catalogued draft with so many anonymous classes, in which no type that was there in `base` has got another
supertype. -/
structure Orderly (base : Draft) (count : Nat) (d : Draft) : Prop where
  catalogued : Catalogued d
  keeps : base.repository.Keeps d.repository
  anonymous : d.repository.anonymousCount = count
  supertypes : ∀ id : TypeId, Present id base → d.repository.supertypesOf id = base.repository.supertypesOf id

namespace Orderly

variable {base d : Draft} {count : Nat}

theorem refl (h : Catalogued d) : Orderly d d.repository.anonymousCount d := ⟨h, .refl _, rfl, fun _ _ => rfl⟩

theorem rescope (h : Orderly base count d) (scope : Scope) : Orderly base count { d with scope } :=
  ⟨⟨h.catalogued.agree, h.catalogued.namespaces, h.catalogued.types, h.catalogued.anchored, h.catalogued.nonempty,
    h.catalogued.numbered⟩, h.keeps, h.anonymous, h.supertypes⟩

theorem keep (h : Orderly base count d) {c : Change}
    (other : ∀ key name container kind, c ≠ .type key name container kind)
    (unlinked : ∀ id t, Present id base → c ≠ .inheritance id t) : Orderly base count (c.apply d) where
  catalogued := h.catalogued.keep other
  keeps := h.keeps.trans (c.keeps d)
  anonymous := (Repository.anonymousCount_keep (c.keeps d) (Change.same_types other d).1).trans h.anonymous
  supertypes id there :=
    (Change.supertypesOf_apply c d id fun t => unlinked id t there).trans (h.supertypes id there)

theorem mild (h : Orderly base count d) {c : Change} (mild : c.Mild) : Orderly base count (c.apply d) := by
  apply h.keep
  · rintro key name container kind rfl
    exact mild
  · rintro id t - rfl
    exact mild

theorem link (h : Orderly base count d) {subclass : TypeId} (new : base.repository.types.size ≤ subclass.index)
    (superclass : TypeId) : Orderly base count ((Change.inheritance subclass superclass).apply d) := by
  apply h.keep
  · exact nofun
  · intro id t there same
    cases same
    exact Nat.not_lt_of_le new there

/-- A new type that is filed under its name counts as an anonymous class if it is named like one. -/
theorem add (h : Orderly base count d) {key name : String} {c : Container} (kind : TypeKind)
    (fresh : d.registry.types.get? key = none) (outer : d.repository.Anchored c)
    (named : d.repository.childName c name = key) (nonempty : key ≠ "")
    (numbered : '$' ∈ name.toList → ∃ owner, c = .type owner ∧ name = anonymousName (d.repository.typesIn c).length) :
    Orderly base (count + (isAnonymousName name).toNat) (d.addType key name c kind fresh) := by
  refine ⟨h.catalogued.add fresh outer named nonempty numbered, h.keeps.trans (keeps_addType fresh), ?_, h.supertypes⟩
  have pushed : (d.addType key name c kind fresh).repository.types.toList = d.repository.types.toList ++
      [{ NamedEntity.stub name with id := ⟨d.repository.types.size⟩, container := c, kind }] := Array.toList_push
  rw [← h.anonymous, Repository.anonymousCount, pushed, List.countP_append]
  cases shape : isAnonymousName name <;> simp [NamedEntity.stub, shape, Repository.anonymousCount]

/-- A type with a plain name may be interned under its name. -/
theorem type (h : Orderly base count d) {key name : String} {c : Container} (kind : TypeKind)
    (outer : d.repository.Anchored c) (named : d.repository.childName c name = key) (nonempty : key ≠ "")
    (plain : '$' ∉ name.toList) : Orderly base count (internType key name c kind d).2 := by
  cases known : d.registry.types.get? key with
  | some id =>
    rw [internType_of_some known]
    exact h
  | none =>
    have added := h.add kind known outer named nonempty fun dollar => absurd dollar plain
    rw [isAnonymousName_of_not_mem plain] at added
    rw [internType_of_none known]
    exact added

theorem unknownTypeNamed (h : Orderly base count d) {name : String} (plain : '$' ∉ name.toList) :
    Orderly base count (unknownTypeNamed name d).2 := by
  have space : Orderly base count (unknownNamespace d).2 := unknownNamespace_mild (fun _ _ mild h => h.mild mild) h
  have known := unknownNamespace_registers d
  refine space.type (c := .ns (unknownNamespace d).1) .unknown (space.catalogued.anchored_namespace known) ?_
    (append_dot_ne _ _) plain
  exact (space.catalogued.childName_namespace known name).trans (joinName_of_ne (by decide) name)

theorem ensureTypeParameters (h : Orderly base count d) {key : String} {owner : TypeId}
    (known : d.registry.types.get? key = some owner) {names : List String}
    (plain : ∀ name ∈ names, '$' ∉ name.toList) :
    Orderly base count (ensureTypeParameters owner key names d).draft := by
  induction names generalizing d with
  | nil => exact h
  | cons name names ih =>
    obtain ⟨own, others⟩ := List.forall_mem_cons.mp plain
    have first : Orderly base count (internType (key ++ "." ++ name) name (.type owner) .typeParameter d).2 :=
      h.type .typeParameter (h.catalogued.anchored owner (h.catalogued.present known))
        (h.catalogued.childName_type known name) (append_dot_ne _ _) own
    exact ih first (internType_keeps _ _ _ _ _ _ _ known) others

end Orderly

/-- What must be so for a task to be begun in `d`, if it is to keep the draft orderly since `base`. -/
def Task.Apt (table : BindingTable) (base d : Draft) : Task → Prop
  | .link subclass _ => base.repository.types.size ≤ subclass.index
  | .place b | .binding b => b ∈ table.types
  | .complete b id => b ∈ table.types ∧ d.registry.types.get? (typeKey table b) = some id
  | _ => True

/-- A container that was found is anchored, and the key follows from its name. -/
def Task.Anchors (table : BindingTable) (e : Draft) : Task → Found → Prop
  | .place b, .place c => e.repository.Anchored c ∧ e.repository.childName c b.name = typeKey table b
  | _, _ => True

theorem Resolves.orderly {table : BindingTable} {task : Task} {base d e : Draft} {count : Nat}
    {found : Found} (run : Resolves table task d found e) (consistent : NamesConsistent table)
    (plain : ∀ b ∈ table.types, b.Undollared) (orderly : Orderly base count d) (apt : task.Apt table base d) :
    Orderly base count e ∧ task.Anchors table e found := by
  induction run with
  | inside known _ ih => exact ⟨(ih orderly (List.mem_of_getElem? known)).1, trivial⟩
  | beyond =>
    exact ⟨unknownType_mild (fun _ _ mild h => h.mild mild) (orderly.unknownTypeNamed (by decide)), trivial⟩
  | finished | unlinked | plain | known => exact ⟨orderly, trivial⟩
  | next _ _ ihFirst ihOthers => exact ⟨(ihOthers (ihFirst orderly trivial).1 trivial).1, trivial⟩
  | @link s id i is d e f _ _ ihFirst ihOthers =>
    have linked := (ihFirst orderly trivial).1.link apt id
    exact ⟨(ihOthers linked apt).1, trivial⟩
  | @enclosed b id d e outer found run ih =>
    have orderly := (ih orderly outer.listed).1
    have known := run.registers
    refine ⟨orderly, orderly.catalogued.anchored id (orderly.catalogued.present known), ?_⟩
    rw [orderly.catalogued.childName_type known, (consistent b apt).typeKey_member found]
  | @free b d free =>
    have orderly : Orderly base count (ensureNamespace (b.package.getD unknownName) d).2 :=
      orderly.mild (c := .space (b.package.getD unknownName)) trivial
    have known := ensureNamespace_registers (b.package.getD unknownName) d
    refine ⟨orderly, orderly.catalogued.anchored_namespace known, ?_⟩
    rw [orderly.catalogued.childName_namespace known, (consistent b apt).typeKey_free free]
  | @parameterized b id erasure arguments d e f _ _ _ ihErased ihApplied =>
    have applied := (ihApplied (ihErased orderly trivial).1 trivial).1
    exact ⟨applied.keep (c := .typeKind id (.parameterized erasure arguments)) nofun nofun, trivial⟩
  | @generic b id d _ =>
    have declared := orderly.ensureTypeParameters apt.2 (plain b apt.1).2
    exact ⟨declared.keep (c := .typeKind id _) nofun nofun, trivial⟩
  | met _ _ _ ihPlace => exact ⟨(ihPlace orderly apt).1, trivial⟩
  | @made b c d e f g _ _ unmet links _ ihPlace ihLinks ihCompletion =>
    obtain ⟨placed, outer, childName⟩ := ihPlace orderly apt
    have nonempty : typeKey table b ≠ "" := by
      rw [← childName]
      exact joinName_ne (consistent b apt).nonempty _
    have interned := placed.type (kindOf b) outer childName nonempty (plain b apt).1
    have start : Orderly base count (started table b c e) :=
      interned.mild (c := .typeModifiers ⟨e.repository.types.size⟩ b.modifiers) trivial
    have linked := (ihLinks start (placed.keeps.counts .type)).1
    have known := links.registry_extends.types _ _ (started_registers unmet)
    exact ⟨(ihCompletion linked ⟨apt, known⟩).1, trivial⟩

theorem referable_orderly {ctx : Context} (consistent : NamesConsistent ctx.bindings)
    (plain : ∀ b ∈ ctx.bindings.types, b.Undollared) (base : Draft) (count : Nat) :
    Referable ctx (fun name => '$' ∉ name.toList) (Orderly base count) where
  bound i d orderly := ((resolveIndex_runs ctx.bindings i d).orderly consistent plain orderly trivial).1
  written _ plain _ orderly := orderly.unknownTypeNamed plain
  unknown := by decide
  mild _ _ mild orderly := orderly.mild mild

end Draft

end Famix
