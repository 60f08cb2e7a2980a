import Famix.Proofs.Naming

/-!
Drafts that are changed only in proper ways, and resolution as such a walk. The key of a bound type is the name it
gets in its container as soon as the names in the table are consistent.
-/
namespace Famix

open Java (BindingTable TypeBinding TypeIndex)

/-- `outer` is the declaring class of `b`, and its name encloses that of `b`. -/
def MemberOf (table : BindingTable) (b outer : TypeBinding) : Prop :=
  ∃ i rest, b.declaringClass = some i ∧ table.types[i]? = some outer ∧
    b.qualifiedName = outer.qualifiedName ++ "." ++ rest

/-- The qualified name of a binding is made from its own name and from where it is declared. -/
structure NameConsistent (table : BindingTable) (b : TypeBinding) : Prop where
  nonempty : b.name ≠ ""
  member : ∀ outer, MemberOf table b outer → b.qualifiedName = outer.qualifiedName ++ "." ++ b.name
  free : (∀ outer, ¬ MemberOf table b outer) → b.qualifiedName =
    match b.package with
    | some package => if package = "" then b.name else package ++ "." ++ b.name
    | none => b.name

def NamesConsistent (table : BindingTable) : Prop := ∀ b ∈ table.types, NameConsistent table b

theorem joinName_ne {name : String} (h : name ≠ "") (outer : String) : joinName outer name ≠ "" := by
  unfold joinName
  split
  · exact h
  · exact append_dot_ne outer name

theorem memberSuffix_eq_some {outer b : TypeBinding} {suffix : String} :
    memberSuffix outer b = some suffix ↔
      ∃ rest, suffix = "." ++ rest ∧ b.qualifiedName = outer.qualifiedName ++ "." ++ rest := by
  have dotted : ∀ rest : List Char, String.ofList ('.' :: rest) = "." ++ String.ofList rest := fun rest =>
    String.toList_inj.mp (by simp)
  unfold memberSuffix
  constructor
  · intro h
    split at h
    · next rest found =>
      have whole := stripFront_eq_some.mp found
      refine ⟨String.ofList rest, (Option.some.inj h).symm.trans (dotted rest), String.toList_inj.mp ?_⟩
      simp [whole]
    · cases h
  · rintro ⟨rest, rfl, whole⟩
    have found : stripFront outer.qualifiedName.toList b.qualifiedName.toList = some ('.' :: rest.toList) :=
      stripFront_eq_some.mpr (by simp [whole])
    simp [found, dotted]

theorem enclosing?_some {table : BindingTable} {b : TypeBinding} {e : Enclosing table b}
    (found : enclosing? table b = some e) : MemberOf table b e.outer := by
  obtain ⟨rest, -, whole⟩ := memberSuffix_eq_some.mp e.encloses
  unfold enclosing? at found
  split at found
  · cases found
  · next i declared =>
    split at found
    · next inside =>
      split at found
      · cases found
        exact ⟨i, rest, declared, List.getElem?_eq_getElem inside, whole⟩
      · cases found
    · cases found

theorem enclosing?_none {table : BindingTable} {b : TypeBinding} (free : enclosing? table b = none)
    (outer : TypeBinding) : ¬ MemberOf table b outer := by
  rintro ⟨i, rest, declared, known, whole⟩
  obtain ⟨inside, rfl⟩ := List.getElem?_eq_some_iff.mp known
  have encloses := memberSuffix_eq_some.mpr ⟨rest, rfl, whole⟩
  simp [enclosing?, declared, inside, encloses] at free

/-- The name a binding is to have where it is declared. -/
def expectedName (table : BindingTable) (b : TypeBinding) : String :=
  match enclosing? table b with
  | some e => e.outer.qualifiedName ++ "." ++ b.name
  | none =>
    match b.package with
    | some package => if package = "" then b.name else package ++ "." ++ b.name
    | none => b.name

theorem nameConsistent_iff {table : BindingTable} {b : TypeBinding} :
    NameConsistent table b ↔ b.name ≠ "" ∧ b.qualifiedName = expectedName table b := by
  unfold expectedName
  cases found : enclosing? table b with
  | some e =>
    have member := enclosing?_some found
    refine ⟨fun h => ⟨h.nonempty, h.member e.outer member⟩, fun h => ⟨h.1, fun outer other => ?_, fun free => ?_⟩⟩
    · -- there is one declaring class
      obtain ⟨i, _, declared, known, _⟩ := member
      obtain ⟨j, _, also, listed, _⟩ := other
      obtain rfl : i = j := Option.some.inj (declared.symm.trans also)
      obtain rfl : e.outer = outer := Option.some.inj (known.symm.trans listed)
      exact h.2
    · exact absurd member (free e.outer)
  | none =>
    have free := enclosing?_none found
    exact ⟨fun h => ⟨h.nonempty, h.free free⟩,
      fun h => ⟨h.1, fun outer member => absurd member (free outer), fun _ => h.2⟩⟩

instance (table : BindingTable) (b : TypeBinding) : Decidable (NameConsistent table b) :=
  decidable_of_iff _ nameConsistent_iff.symm

instance (table : BindingTable) : Decidable (NamesConsistent table) :=
  inferInstanceAs (Decidable (∀ b ∈ table.types, NameConsistent table b))

theorem NameConsistent.typeKey_member {table : BindingTable} {b : TypeBinding} (h : NameConsistent table b)
    {e : Enclosing table b} (found : enclosing? table b = some e) :
    typeKey table b = typeKey table e.outer ++ "." ++ b.name := by
  obtain ⟨rest, suffix, whole⟩ := memberSuffix_eq_some.mp e.encloses
  have own := h.member e.outer (enclosing?_some found)
  have same : rest = b.name := by
    have texts := congrArg String.toList (whole.symm.trans own)
    exact String.toList_inj.mp (by simpa using texts)
  rw [typeKey_enclosed found, suffix, same, String.append_assoc]

theorem NameConsistent.typeKey_free {table : BindingTable} {b : TypeBinding} (h : NameConsistent table b)
    (free : enclosing? table b = none) : typeKey table b = joinName (b.package.getD unknownName) b.name := by
  have own := h.free (enclosing?_none free)
  cases package : b.package with
  | none =>
    rw [package] at own
    dsimp only at own
    rw [typeKey_unpackaged free package, own, Option.getD_none, joinName_of_ne (by decide)]
    rfl
  | some outer =>
    rw [package] at own
    dsimp only at own
    rw [typeKey_packaged free package, own, Option.getD_some]
    by_cases empty : outer = ""
    · simp [joinName, empty]
    · rw [if_neg empty, joinName_of_ne empty]

namespace Draft

inductive Walk (p : Promises) (d : Draft) : Draft → Prop where
  | refl : Walk p d d
  | step {e : Draft} (walk : Walk p d e) (c : Change) (proper : c.Proper p e) : Walk p d (c.apply e)

/-- A type that is not there has no supertypes. -/
def Unlinked (d : Draft) : Prop :=
  ∀ id : TypeId, d.repository.types.size ≤ id.index → d.repository.supertypesOf id = []

theorem Unlinked.change {p : Promises} {d : Draft} {c : Change} (h : Unlinked d) (proper : c.Proper p d)
    (promised : p.linked) : Unlinked (c.apply d) := by
  intro id new
  have absent := Nat.le_trans (before_change c d).types new
  rw [Change.supertypesOf_apply c d id, h id absent]
  rintro superclass rfl
  have there : id.index < d.repository.types.size := proper.there promised id.element List.mem_cons_self
  exact Nat.not_lt_of_le absent there

/-- What every change made in its place keeps. -/
structure Sound (p : Promises) (d : Draft) : Prop where
  sited : Sited d
  named : p.named → Named d
  linked : p.linked → Unlinked d

theorem Sound.change {p : Promises} {d : Draft} {c : Change} (h : Sound p d) (proper : c.Proper p d) :
    Sound p (c.apply d) where
  sited := h.sited.change proper
  named promised := (h.named promised).change h.sited proper promised
  linked promised := (h.linked promised).change proper promised

/-- A draft stays sound when other containers that are there are opened. -/
theorem Sound.rescope {p : Promises} {d : Draft} (h : Sound p d) {scope : Scope}
    (opened : ∀ c ∈ scope.frames, d.repository.Holds c.element) : Sound p { d with scope } where
  sited := { h.sited with opened }
  named promised := { h.named promised with }
  linked := h.linked

theorem Sound.holds_namespace {p : Promises} {d : Draft} (h : Sound p d) {key : String} {id : NamespaceId}
    (known : d.registry.namespaces.get? key = some id) : d.repository.Holds id.element :=
  h.sited.known.namespaces key id known

theorem Sound.holds_type {p : Promises} {d : Draft} (h : Sound p d) {key : String} {id : TypeId}
    (known : d.registry.types.get? key = some id) : d.repository.Holds id.element :=
  h.sited.known.types key id known

theorem Sound.childName_type {p : Promises} {d : Draft} (h : Sound p d) (promised : p.named) {key : String}
    {id : TypeId} (known : d.registry.types.get? key = some id) (name : String) :
    d.repository.childName (.type id) name = key ++ "." ++ name := by
  have named := h.named promised
  have same : d.repository.typeName id = key := named.keys.types key id known
  exact Repository.childName_type same (same ▸ named.nonempty id (h.holds_type known)) name

theorem Sound.childName_namespace {p : Promises} {d : Draft} (h : Sound p d) (promised : p.named) {key : String}
    {id : NamespaceId} (known : d.registry.namespaces.get? key = some id) (name : String) :
    d.repository.childName (.ns id) name = joinName key name := by
  rw [← (h.named promised).keys.namespaces key id known]
  rfl

namespace Walk

variable {p : Promises} {d e f : Draft}

theorem single (c : Change) (proper : c.Proper p d) : Walk p d (c.apply d) := .step .refl c proper

theorem trans (h : Walk p d e) (k : Walk p e f) : Walk p d f := by
  induction k with
  | refl => exact h
  | step _ c proper ih => exact .step ih c proper

theorem sound (h : Walk p d e) (start : Sound p d) : Sound p e := by
  induction h with
  | refl => exact start
  | step _ c proper ih => exact ih.change proper

theorem invariant {P : Draft → Prop} (h : Walk p d e) (start : Sound p d) (holds : P d)
    (keep : ∀ (c : Change) (e : Draft), Sound p e → c.Proper p e → P e → P (c.apply e)) : P e := by
  induction h with
  | refl => exact holds
  | step walk c proper ih => exact keep c _ (walk.sound start) proper ih

theorem keeps (h : Walk p d e) : d.repository.Keeps e.repository := by
  induction h with
  | refl => exact .refl _
  | step _ c _ ih => exact ih.trans (c.keeps _)

theorem registry_extends (h : Walk p d e) : d.registry.Extends e.registry := by
  induction h with
  | refl => exact .refl _
  | step _ c _ ih => exact ih.trans (c.registry_extends _)

end Walk

/-! What resolution registers. -/

/-- The key of the type at a place of the table; beyond its end, that of the unknown type. -/
def indexKey (table : BindingTable) (i : TypeIndex) : String :=
  match table.types[i]? with
  | some b => typeKey table b
  | none => unknownKey unknownName

/-- The type that is registered for a place of the table. -/
def resolved? (table : BindingTable) (d : Draft) (i : TypeIndex) : Option TypeId :=
  d.registry.types.get? (indexKey table i)

theorem registered_keep {f : ι → String} {d e : Draft} (keeps : d.registry.Extends e.registry) {is : List ι}
    {ids : List TypeId} (h : is.map (fun i => d.registry.types.get? (f i)) = ids.map some) :
    is.map (fun i => e.registry.types.get? (f i)) = ids.map some := by
  induction is generalizing ids with
  | nil => exact h
  | cons i is ih =>
    cases ids with
    | nil => cases h
    | cons id ids =>
      obtain ⟨first, others⟩ := List.cons.inj h
      exact List.cons_eq_cons.mpr ⟨keeps.types _ _ first, ih others⟩

theorem resolved_keep {table : BindingTable} {d e : Draft} (keeps : d.registry.Extends e.registry)
    {is : List TypeIndex} {ids : List TypeId} (h : is.map (resolved? table d) = ids.map some) :
    is.map (resolved? table e) = ids.map some := registered_keep keeps h

theorem Sound.holds_resolved {p : Promises} {table : BindingTable} {d : Draft} (sound : Sound p d)
    {is : List TypeIndex} {ids : List TypeId} (h : is.map (resolved? table d) = ids.map some) :
    ∀ id ∈ ids, d.repository.Holds id.element := by
  intro id mem
  have listed : some id ∈ is.map (resolved? table d) := h ▸ List.mem_map_of_mem mem
  obtain ⟨i, -, known⟩ := List.mem_map.mp listed
  exact sound.holds_type known

theorem started_registers {table : BindingTable} {b : TypeBinding} {c : Container} {d : Draft}
    (fresh : d.registry.types.get? (typeKey table b) = none) :
    (started table b c d).registry.types.get? (typeKey table b) = some ⟨d.repository.types.size⟩ := by
  rw [started, internType_of_none fresh]
  simp [begun, addType]

/-- What is registered when a task is done. -/
def Task.Registers (table : BindingTable) (e : Draft) : Task → Found → Prop
  | .index i, .type id => resolved? table e i = some id
  | .every is, .types ids => is.map (resolved? table e) = ids.map some
  | .binding b, .type id => e.registry.types.get? (typeKey table b) = some id
  | _, _ => True

theorem Resolves.registry_extends {table : BindingTable} {task : Task} {d e : Draft} {found : Found}
    (run : Resolves table task d found e) : d.registry.Extends e.registry := run.path.registry_extends

theorem Resolves.registers {table : BindingTable} {task : Task} {d e : Draft} {found : Found}
    (run : Resolves table task d found e) : task.Registers table e found := by
  induction run with
  | inside known _ ih =>
    dsimp only [Task.Registers] at ih ⊢
    rw [resolved?, indexKey, known]
    exact ih
  | beyond dangling =>
    dsimp only [Task.Registers]
    rw [resolved?, indexKey, dangling]
    exact unknownType_registers _
  | finished => exact rfl
  | next first others ihFirst ihOthers =>
    exact List.cons_eq_cons.mpr ⟨others.registry_extends.types _ _ ihFirst, ihOthers⟩
  | known known => exact known
  | met _ _ met => exact met
  | made _ _ unmet links completion =>
    exact completion.registry_extends.types _ _ (links.registry_extends.types _ _ (started_registers unmet))
  | unlinked | link | enclosed | free | parameterized | generic | plain => trivial

/-! Resolution is a walk. -/

section Steps

variable {p : Promises} {d : Draft} {key name : String} {c : Container} {kind : TypeKind}

theorem ensureNamespace_walk (name : String) (d : Draft) : Walk p d (ensureNamespace name d).2 :=
  .single (.space name) ⟨fun _ _ mem => by simp [Change.references] at mem, fun _ => trivial, trivial⟩

theorem internType_walk (outer : d.repository.Holds c.element) (open_ : kind.references = [])
    (named : p.named → key = d.repository.childName c name ∧ key ≠ "") :
    Walk p d (internType key name c kind d).2 := by
  refine .single (.type key name c kind) ⟨fun _ e mem => ?_, named, trivial⟩
  rw [Change.references, open_] at mem
  cases List.mem_singleton.mp mem
  exact outer

theorem remember_walk (u : Unknown) (d : Draft) : Walk p d (d.remember u) :=
  .single (.remember u) ⟨fun _ _ mem => by simp [Change.references] at mem, fun _ => trivial, trivial⟩

theorem unknownNamespace_walk (d : Draft) : Walk p d (unknownNamespace d).2 := by
  rw [unknownNamespace_eq]
  exact (ensureNamespace_walk unknownName d).trans (remember_walk .space _)

theorem unknownTypeNamed_walk (name : String) (sound : Sound p d) : Walk p d (unknownTypeNamed name d).2 := by
  have space : Walk p d (unknownNamespace d).2 := unknownNamespace_walk d
  have sound := space.sound sound
  have known := unknownNamespace_registers d
  have named (promised : p.named) :
      unknownKey name = (unknownNamespace d).2.repository.childName (.ns (unknownNamespace d).1) name :=
    ((sound.childName_namespace promised known name).trans (joinName_of_ne (by decide) name)).symm
  exact space.trans <| internType_walk (c := .ns (unknownNamespace d).1) (sound.holds_namespace known) rfl
    fun promised => ⟨named promised, append_dot_ne _ _⟩

theorem unknownType_walk (sound : Sound p d) : Walk p d (unknownType d).2 := by
  rw [unknownType_eq]
  exact (unknownTypeNamed_walk unknownName sound).trans (remember_walk .type _)

theorem ensureTypeParameters_walk {owner : TypeId} (names : List String) (sound : Sound p d)
    (known : d.registry.types.get? key = some owner) :
    Walk p d (ensureTypeParameters owner key names d).draft ∧
      ∀ id ∈ (ensureTypeParameters owner key names d).value,
        (ensureTypeParameters owner key names d).draft.repository.Holds id.element := by
  induction names generalizing d with
  | nil => exact ⟨.refl, nofun⟩
  | cons name names ih =>
    have first : Walk p d (internType (key ++ "." ++ name) name (.type owner) .typeParameter d).2 :=
      internType_walk (c := .type owner) (sound.holds_type known) rfl fun promised =>
        ⟨(sound.childName_type promised known name).symm, append_dot_ne _ _⟩
    have sound := first.sound sound
    obtain ⟨others, held⟩ := ih sound (first.registry_extends.types _ _ known)
    refine ⟨first.trans others, fun id mem => ?_⟩
    rcases List.mem_cons.mp mem with rfl | mem
    · exact others.keeps.holds (sound.holds_type (internType_registers ..))
    · exact held id mem

theorem linkedTo_walk {subclass superclass : TypeId} (below : d.repository.Holds subclass.element)
    (above : d.repository.Holds superclass.element) : Walk p d (d.linkedTo subclass superclass) := by
  refine .single (.inheritance subclass superclass) ⟨fun _ x mem => ?_, fun _ => trivial, trivial⟩
  rcases List.mem_pair.mp mem with rfl | rfl
  · exact below
  · exact above

end Steps

theorem kindOf_references (b : TypeBinding) : (kindOf b).references = [] := by
  unfold kindOf
  repeat' split
  all_goals rfl

theorem started_walk {p : Promises} {table : BindingTable} {b : TypeBinding} {c : Container} {d : Draft}
    (outer : d.repository.Holds c.element) (nonempty : p.named → b.name ≠ "")
    (named : p.named → d.repository.childName c b.name = typeKey table b) : Walk p d (started table b c d) := by
  have interned : Walk p d (internType (typeKey table b) b.name c (kindOf b) d).2 := by
    refine internType_walk outer (kindOf_references b) fun promised => ⟨(named promised).symm, ?_⟩
    rw [← named promised]
    exact joinName_ne (nonempty promised) _
  exact interned.step (.typeModifiers ⟨d.repository.types.size⟩ b.modifiers) ⟨nofun, fun _ => trivial, trivial⟩

/-- What must be so in a draft for a task to be begun in it. -/
def Task.Ready (table : BindingTable) (d : Draft) : Task → Prop
  | .link subclass _ => d.repository.Holds subclass.element
  | .place b | .binding b => b ∈ table.types
  | .complete b id => b ∈ table.types ∧ d.registry.types.get? (typeKey table b) = some id
  | _ => True

/-- A container that was found is there, and the key follows from its name. -/
def Task.Places (p : Promises) (table : BindingTable) (e : Draft) : Task → Found → Prop
  | .place b, .place c =>
    e.repository.Holds c.element ∧ (p.named → e.repository.childName c b.name = typeKey table b)
  | _, _ => True

theorem Resolves.walk {p : Promises} {table : BindingTable} {task : Task} {d e : Draft} {found : Found}
    (run : Resolves table task d found e) (consistent : p.named → NamesConsistent table) (sound : Sound p d)
    (ready : task.Ready table d) : Walk p d e ∧ task.Places p table e found := by
  induction run with
  | inside known _ ih => exact ⟨(ih sound (List.mem_of_getElem? known)).1, trivial⟩
  | beyond => exact ⟨unknownType_walk sound, trivial⟩
  | finished => exact ⟨.refl, trivial⟩
  | next _ _ ihFirst ihOthers =>
    have first := (ihFirst sound trivial).1
    exact ⟨first.trans (ihOthers (first.sound sound) trivial).1, trivial⟩
  | unlinked => exact ⟨.refl, trivial⟩
  | @link s id i is d e f run _ ihFirst ihOthers =>
    have first := (ihFirst sound trivial).1
    have subclass := first.keeps.holds ready
    have superclass := (first.sound sound).holds_type run.registers
    have linked := first.trans (linkedTo_walk subclass superclass)
    exact ⟨linked.trans (ihOthers (linked.sound sound) (linked.keeps.holds ready)).1, trivial⟩
  | @enclosed b id d e outer found run ih =>
    -- the run for the outer type has registered it under its key, which by now is its name
    have walk := (ih sound outer.listed).1
    have sound := walk.sound sound
    have known := run.registers
    refine ⟨walk, sound.holds_type known, fun promised => ?_⟩
    rw [sound.childName_type promised known, (consistent promised b ready).typeKey_member found]
  | @free b d free =>
    have walk := ensureNamespace_walk (p := p) (b.package.getD unknownName) d
    have sound := walk.sound sound
    have known := ensureNamespace_registers (b.package.getD unknownName) d
    refine ⟨walk, sound.holds_namespace known, fun promised => ?_⟩
    rw [sound.childName_namespace promised known, (consistent promised b ready).typeKey_free free]
  | @parameterized b id erasure arguments d e f _ erased applied ihErased ihApplied =>
    have first := (ihErased sound trivial).1
    have soundThen := first.sound sound
    have second := (ihApplied soundThen trivial).1
    have erasureHeld := soundThen.holds_resolved erased.registers
    have argumentsHeld := (second.sound soundThen).holds_resolved applied.registers
    refine ⟨(first.trans second).step (.typeKind id _) ⟨fun _ x mem => ?_, fun _ => trivial, trivial⟩, trivial⟩
    obtain ⟨t, listed, rfl⟩ := List.mem_map.mp mem
    rcases List.mem_append.mp listed with listed | listed
    · exact second.keeps.holds (erasureHeld t listed)
    · exact argumentsHeld t listed
  | @generic b id d _ =>
    obtain ⟨walk, held⟩ := ensureTypeParameters_walk b.typeParameters sound ready.2
    refine ⟨walk.step (.typeKind id _) ⟨fun _ x mem => ?_, fun _ => trivial, trivial⟩, trivial⟩
    obtain ⟨t, listed, rfl⟩ := List.mem_map.mp mem
    exact held t listed
  | plain => exact ⟨.refl, trivial⟩
  | known => exact ⟨.refl, trivial⟩
  | met _ _ _ ihPlace => exact ⟨(ihPlace sound ready).1, trivial⟩
  | @made b c d e f g _ _ unmet links _ ihPlace ihLinks ihCompletion =>
    obtain ⟨place, outer, childName⟩ := ihPlace sound ready
    have start := place.trans (started_walk outer (fun promised => (consistent promised b ready).nonempty) childName)
    have known := started_registers (c := c) unmet
    have soundThen := start.sound sound
    have linked := (ihLinks soundThen (soundThen.holds_type known)).1
    have completed := (ihCompletion (linked.sound soundThen)
      ⟨ready, linked.registry_extends.types _ _ known⟩).1
    exact ⟨(start.trans linked).trans completed, trivial⟩

end Draft

end Famix
