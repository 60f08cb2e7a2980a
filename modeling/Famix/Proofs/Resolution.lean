import Famix.Draft.References
import Famix.Proofs.Interning
import Mathlib.Logic.ExistsUnique

/-!
Resolution of bound types as a relation. A derivation is a finite run of the resolution; nothing in the rules
bounds its depth or measures it. Every task has exactly one run, whatever the table and the draft, and the
resolving functions compute its result.
-/
namespace Famix

open Java (BindingTable TypeBinding TypeIndex)

/-- The key of a bound type, found by going outwards through the declaring classes. -/
inductive KeyOf (table : BindingTable) : TypeBinding → String → Prop where
  | enclosed {b : TypeBinding} {key : String} (e : Enclosing table b) (found : enclosing? table b = some e)
      (outer : KeyOf table e.outer key) : KeyOf table b (key ++ e.suffix)
  | packaged {b : TypeBinding} {package : String} (free : enclosing? table b = none)
      (packaged : b.package = some package) : KeyOf table b b.qualifiedName
  | unpackaged {b : TypeBinding} (free : enclosing? table b = none) (unpackaged : b.package = none) :
      KeyOf table b (unknownKey b.qualifiedName)

theorem typeKey_enclosed {table : BindingTable} {b : TypeBinding} {e : Enclosing table b}
    (found : enclosing? table b = some e) : typeKey table b = typeKey table e.outer ++ e.suffix := by
  rw [typeKey, found]

theorem typeKey_packaged {table : BindingTable} {b : TypeBinding} {package : String}
    (free : enclosing? table b = none) (packaged : b.package = some package) :
    typeKey table b = b.qualifiedName := by
  rw [typeKey, free, packaged]

theorem typeKey_unpackaged {table : BindingTable} {b : TypeBinding} (free : enclosing? table b = none)
    (unpackaged : b.package = none) : typeKey table b = unknownKey b.qualifiedName := by
  rw [typeKey, free, unpackaged]

theorem keyOf_typeKey (table : BindingTable) (b : TypeBinding) : KeyOf table b (typeKey table b) := by
  cases found : enclosing? table b with
  | some e =>
    rw [typeKey_enclosed found]
    exact .enclosed e found (keyOf_typeKey table e.outer)
  | none =>
    cases package : b.package with
    | some p =>
      rw [typeKey_packaged found package]
      exact .packaged found package
    | none =>
      rw [typeKey_unpackaged found package]
      exact .unpackaged found package
termination_by b.qualifiedName.length
decreasing_by exact e.shorter

theorem KeyOf.eq_typeKey {table : BindingTable} {b : TypeBinding} {key : String}
    (h : KeyOf table b key) : key = typeKey table b := by
  induction h with
  | enclosed e found outer ih => rw [typeKey_enclosed found, ih]
  | packaged free packaged => rw [typeKey_packaged free packaged]
  | unpackaged free unpackaged => rw [typeKey_unpackaged free unpackaged]

namespace Draft

/-- What a resolution can be asked to do. -/
inductive Task where
  | index (i : TypeIndex)
  | every (is : List TypeIndex)
  /-- to make each type a supertype of `subclass` -/
  | link (subclass : TypeId) (is : List TypeIndex)
  | place (b : TypeBinding)
  /-- to complete the type of `b`, which is registered and linked -/
  | complete (b : TypeBinding) (id : TypeId)
  | binding (b : TypeBinding)

inductive Found where
  | type (id : TypeId)
  | types (ids : List TypeId)
  | place (c : Container)
  | nothing

def begun (b : TypeBinding) (id : TypeId) (d : Draft) : Draft :=
  d.edit (·.updateType id fun t => { t with modifiers := .declared b.modifiers })

/-- The draft in which the types that a new type refers to are resolved. -/
abbrev started (table : BindingTable) (b : TypeBinding) (c : Container) (d : Draft) : Draft :=
  (internType (typeKey table b) b.name c (kindOf b) d).2.begun b ⟨d.repository.types.size⟩

def setKind (id : TypeId) (kind : TypeKind) (d : Draft) : Draft :=
  d.edit (·.updateType id fun t => { t with kind })

def linkedTo (subclass superclass : TypeId) (d : Draft) : Draft :=
  d.edit fun r => (r.insertInheritance subclass superclass).2

/-- A run of a task from one draft to another. -/
inductive Resolves (table : BindingTable) : Task → Draft → Found → Draft → Prop where
  | inside {i : TypeIndex} {b : TypeBinding} {id : TypeId} {d e : Draft} (known : table.types[i]? = some b)
      (run : Resolves table (.binding b) d (.type id) e) : Resolves table (.index i) d (.type id) e
  | beyond {i : TypeIndex} {d : Draft} (dangling : table.types[i]? = none) :
      Resolves table (.index i) d (.type (unknownType d).1) (unknownType d).2
  | finished {d : Draft} : Resolves table (.every []) d (.types []) d
  | next {i : TypeIndex} {is : List TypeIndex} {id : TypeId} {ids : List TypeId} {d e f : Draft}
      (first : Resolves table (.index i) d (.type id) e) (others : Resolves table (.every is) e (.types ids) f) :
      Resolves table (.every (i :: is)) d (.types (id :: ids)) f
  | unlinked {s : TypeId} {d : Draft} : Resolves table (.link s []) d .nothing d
  | link {s id : TypeId} {i : TypeIndex} {is : List TypeIndex} {d e f : Draft}
      (first : Resolves table (.index i) d (.type id) e)
      (others : Resolves table (.link s is) (e.linkedTo s id) .nothing f) :
      Resolves table (.link s (i :: is)) d .nothing f
  | enclosed {b : TypeBinding} {id : TypeId} {d e : Draft} (outer : Enclosing table b)
      (found : enclosing? table b = some outer) (run : Resolves table (.binding outer.outer) d (.type id) e) :
      Resolves table (.place b) d (.place (.type id)) e
  | free {b : TypeBinding} {d : Draft} (free : enclosing? table b = none) :
      Resolves table (.place b) d (.place (.ns (ensureNamespace (b.package.getD unknownName) d).1))
        (ensureNamespace (b.package.getD unknownName) d).2
  | parameterized {b : TypeBinding} {id : TypeId} {erasure : Option TypeId} {arguments : List TypeId}
      {d e f : Draft} (kind : kindOf b = .parameterized none [])
      (erased : Resolves table (.every b.erasure.toList) d (.types erasure.toList) e)
      (applied : Resolves table (.every b.typeArguments) e (.types arguments) f) :
      Resolves table (.complete b id) d .nothing (f.setKind id (.parameterized erasure arguments))
  | generic {b : TypeBinding} {id : TypeId} {d : Draft} (kind : kindOf b = .generic b.isInterface []) :
      Resolves table (.complete b id) d .nothing
        ((ensureTypeParameters id (typeKey table b) b.typeParameters d).draft.setKind id
          (.generic b.isInterface (ensureTypeParameters id (typeKey table b) b.typeParameters d).value))
  | plain {b : TypeBinding} {id : TypeId} {d : Draft} (notParameterized : kindOf b ≠ .parameterized none [])
      (notGeneric : kindOf b ≠ .generic b.isInterface []) : Resolves table (.complete b id) d .nothing d
  | known {b : TypeBinding} {id : TypeId} {d : Draft}
      (known : d.registry.types.get? (typeKey table b) = some id) : Resolves table (.binding b) d (.type id) d
  /-- resolving the container has reached this type already -/
  | met {b : TypeBinding} {id : TypeId} {c : Container} {d e : Draft}
      (fresh : d.registry.types.get? (typeKey table b) = none)
      (place : Resolves table (.place b) d (.place c) e)
      (met : e.registry.types.get? (typeKey table b) = some id) : Resolves table (.binding b) d (.type id) e
  | made {b : TypeBinding} {c : Container} {d e f g : Draft}
      (fresh : d.registry.types.get? (typeKey table b) = none)
      (place : Resolves table (.place b) d (.place c) e)
      (unmet : e.registry.types.get? (typeKey table b) = none)
      (links : Resolves table (.link ⟨e.repository.types.size⟩ (b.superclass.toList ++ b.interfaces))
        (started table b c e) .nothing f)
      (completion : Resolves table (.complete b ⟨e.repository.types.size⟩) f .nothing g) :
      Resolves table (.binding b) d (.type ⟨e.repository.types.size⟩) g

/-! The functions run their tasks. -/

theorem kindOf_of_parameterized {b : TypeBinding} {erasure : Option TypeId} {arguments : List TypeId}
    (h : kindOf b = .parameterized erasure arguments) : kindOf b = .parameterized none [] := by
  unfold kindOf at h ⊢
  split at h
  · cases h
  · split at h
    · simp_all
    · split at h
      · cases h
      · split at h <;> cases h

theorem kindOf_of_generic {b : TypeBinding} {isInterface : Bool} {parameters : List TypeId}
    (h : kindOf b = .generic isInterface parameters) :
    isInterface = b.isInterface ∧ kindOf b = .generic b.isInterface [] := by
  unfold kindOf at h ⊢
  split at h
  · cases h
  · split at h
    · cases h
    · split at h
      · simp_all
      · split at h <;> cases h

mutual
theorem resolveIndex_runs (table : BindingTable) (i : TypeIndex) (d : Draft) :
    Resolves table (.index i) d (.type (resolveIndex table i d).value) (resolveIndex table i d).draft := by
  unfold resolveIndex
  split
  · next inside =>
    exact .inside (List.getElem?_eq_getElem inside) (resolveBinding_runs table _ (List.getElem_mem inside) d)
  · next outside => exact .beyond (List.getElem?_eq_none (Nat.le_of_not_lt outside))
termination_by (2 * pending table d + 1, 0, 0)

theorem resolveOption_runs (table : BindingTable) (i : Option TypeIndex) (d : Draft) :
    Resolves table (.every i.toList) d (.types (resolveOption table i d).value.toList)
      (resolveOption table i d).draft := by
  unfold resolveOption
  cases i with
  | none => exact .finished
  | some i => exact .next (resolveIndex_runs table i d) .finished
termination_by (2 * pending table d + 1, 1, 0)

theorem resolveAll_runs (table : BindingTable) (is : List TypeIndex) (d : Draft) :
    Resolves table (.every is) d (.types (resolveAll table is d).value) (resolveAll table is d).draft := by
  unfold resolveAll
  cases is with
  | nil => exact .finished
  | cons i is =>
    have noMore := pending_le table (resolveIndex table i d).keeps
    exact .next (resolveIndex_runs table i d) (resolveAll_runs table is _)
termination_by (2 * pending table d + 1, is.length, 0)
decreasing_by
  · exact Prod.Lex.right _ (Prod.Lex.left _ _ (Nat.succ_pos _))
  · exact lex_of_le noMore (Prod.Lex.left _ _ (Nat.lt_succ_self _))

theorem linkAll_runs (table : BindingTable) (s : TypeId) (is : List TypeIndex) (d : Draft) :
    Resolves table (.link s is) d .nothing (linkAll table s is d).draft := by
  unfold linkAll
  cases is with
  | nil => exact .unlinked
  | cons i is =>
    have noMore : pending table ((resolveIndex table i d).draft.linkedTo s (resolveIndex table i d).value) ≤
      pending table d := pending_le table (resolveIndex table i d).keeps
    exact .link (resolveIndex_runs table i d) (linkAll_runs table s is _)
termination_by (2 * pending table d + 1, is.length, 0)
decreasing_by
  · exact Prod.Lex.right _ (Prod.Lex.left _ _ (Nat.succ_pos _))
  · exact lex_of_le noMore (Prod.Lex.left _ _ (Nat.lt_succ_self _))

theorem resolveContainer_runs (table : BindingTable) (b : TypeBinding) (d : Draft) :
    Resolves table (.place b) d (.place (resolveContainer table b d).value)
      (resolveContainer table b d).draft := by
  unfold resolveContainer
  split
  · next e found =>
    -- nothing has been registered on the way out; it is the name that gets shorter
    have := e.shorter
    exact .enclosed e found (resolveBinding_runs table e.outer e.listed d)
  · next free => exact .free free
termination_by (2 * pending table d, b.qualifiedName.length, 0)

theorem resolveBinding_runs (table : BindingTable) (b : TypeBinding) (listed : b ∈ table.types) (d : Draft) :
    Resolves table (.binding b) d (.type (resolveBinding table b listed d).value)
      (resolveBinding table b listed d).draft := by
  unfold resolveBinding
  split
  · next known => exact .known (Option.some_get known).symm
  · next unknown =>
    have fresh : d.registry.types.get? (typeKey table b) = none := by simpa using unknown
    have place := resolveContainer_runs table b d
    have keeps := (resolveContainer table b d).keeps
    dsimp only
    split
    · next id existing =>
      obtain ⟨met, same⟩ := internType_existing existing
      dsimp only
      rw [same]
      exact .met fresh place met
    · next id created =>
      obtain ⟨unmet, rfl⟩ := internType_created created
      have fewer := pending_lt (keeps.trans (internType_keeps (typeKey table b) b.name
        (resolveContainer table b d).value (kindOf b) _)) listed fresh (internType_registers ..)
      split
      · next kind =>
        exact .made fresh place unmet (linkAll_runs ..) (.parameterized (kindOf_of_parameterized kind)
          (resolveOption_runs ..) (resolveAll_runs ..))
      · next kind =>
        obtain ⟨rfl, generic⟩ := kindOf_of_generic kind
        exact .made fresh place unmet (linkAll_runs ..) (.generic generic)
      · next notParameterized notGeneric =>
        exact .made fresh place unmet (linkAll_runs ..) (.plain (notParameterized _ _) (notGeneric _ _))
termination_by (2 * pending table d, b.qualifiedName.length, 1)
decreasing_by
  · exact Prod.Lex.right _ (Prod.Lex.right _ Nat.one_pos)
  · exact Prod.Lex.left _ _ (double_succ_lt fewer)
  · exact Prod.Lex.left _ _ (double_succ_lt (Nat.lt_of_le_of_lt (pending_le table (Reached.keeps _)) fewer))
  · exact Prod.Lex.left _ _ (double_succ_lt (Nat.lt_of_le_of_lt (pending_le table (KeepsTypes.trans
      (Reached.keeps _) (Reached.keeps _))) fewer))
  · exact Prod.Lex.left _ _ (double_succ_lt fewer)
  · exact Prod.Lex.left _ _ (double_succ_lt fewer)
end

theorem Resolves.deterministic {table : BindingTable} {task : Task} {d e e' : Draft} {found found' : Found}
    (run : Resolves table task d found e) (other : Resolves table task d found' e') :
    found = found' ∧ e = e' := by
  -- the other run ends with the same rule, or what its last rule asks for contradicts what this one asks for
  induction run generalizing found' e' with
  | inside known _ ih =>
    cases other with
    | inside known' run' =>
      cases Option.some.inj (known.symm.trans known')
      exact ih run'
    | beyond dangling => rw [known] at dangling; cases dangling
  | beyond dangling =>
    cases other with
    | inside known' _ => rw [dangling] at known'; cases known'
    | beyond => exact ⟨rfl, rfl⟩
  | finished => cases other; exact ⟨rfl, rfl⟩
  | next _ _ ihFirst ihOthers =>
    cases other with
    | next first' others' =>
      obtain ⟨same, rfl⟩ := ihFirst first'
      cases same
      obtain ⟨same, rfl⟩ := ihOthers others'
      cases same
      exact ⟨rfl, rfl⟩
  | unlinked => cases other; exact ⟨rfl, rfl⟩
  | link _ _ ihFirst ihOthers =>
    cases other with
    | link first' others' =>
      obtain ⟨same, rfl⟩ := ihFirst first'
      cases same
      exact ihOthers others'
  | enclosed outer found _ ih =>
    cases other with
    | enclosed outer' found' run' =>
      cases Option.some.inj (found.symm.trans found')
      obtain ⟨same, rfl⟩ := ih run'
      cases same
      exact ⟨rfl, rfl⟩
    | free free => rw [found] at free; cases free
  | free free =>
    cases other with
    | enclosed _ found' _ => rw [free] at found'; cases found'
    | free => exact ⟨rfl, rfl⟩
  | parameterized kind _ _ ihErased ihApplied =>
    cases other with
    | parameterized _ erased' applied' =>
      obtain ⟨same, rfl⟩ := ihErased erased'
      have erasures := congrArg List.head? (Found.types.inj same)
      simp only [Option.head?_toList] at erasures
      subst erasures
      obtain ⟨same, rfl⟩ := ihApplied applied'
      cases same
      exact ⟨rfl, rfl⟩
    | generic kind' => rw [kind] at kind'; cases kind'
    | plain notParameterized _ => exact absurd kind notParameterized
  | generic kind =>
    cases other with
    | parameterized kind' => rw [kind] at kind'; cases kind'
    | generic => exact ⟨rfl, rfl⟩
    | plain _ notGeneric => exact absurd kind notGeneric
  | plain notParameterized notGeneric =>
    cases other with
    | parameterized kind' => exact absurd kind' notParameterized
    | generic kind' => exact absurd kind' notGeneric
    | plain => exact ⟨rfl, rfl⟩
  | known known =>
    cases other with
    | known known' => cases known.symm.trans known'; exact ⟨rfl, rfl⟩
    | met fresh => rw [known] at fresh; cases fresh
    | made fresh => rw [known] at fresh; cases fresh
  | met fresh _ met ihPlace =>
    cases other with
    | known known' => rw [fresh] at known'; cases known'
    | met _ place' met' =>
      obtain ⟨-, rfl⟩ := ihPlace place'
      cases met.symm.trans met'
      exact ⟨rfl, rfl⟩
    | made _ place' unmet' =>
      obtain ⟨-, rfl⟩ := ihPlace place'
      rw [met] at unmet'
      cases unmet'
  | made fresh _ unmet _ _ ihPlace ihLinks ihCompletion =>
    cases other with
    | known known' => rw [fresh] at known'; cases known'
    | met _ place' met' =>
      obtain ⟨-, rfl⟩ := ihPlace place'
      rw [unmet] at met'
      cases met'
    | made _ place' _ links' completion' =>
      obtain ⟨same, rfl⟩ := ihPlace place'
      cases same
      obtain ⟨-, rfl⟩ := ihLinks links'
      obtain ⟨-, rfl⟩ := ihCompletion completion'
      exact ⟨rfl, rfl⟩

/-- Resolution ends for every table and from every draft: keys and types each have exactly one run, which is
finite, and the functions give its result. Nothing is assumed of the links between bindings. -/
theorem typeOfBinding_terminates (ctx : Context) (i : TypeIndex) (d : Draft) :
    (∀ b, ∃! key, KeyOf ctx.bindings b key) ∧
      (∃! result : Found × Draft, Resolves ctx.bindings (.index i) d result.1 result.2) ∧
      Resolves ctx.bindings (.index i) d (.type (typeOfBinding ctx i d).1) (typeOfBinding ctx i d).2 := by
  have run := resolveIndex_runs ctx.bindings i d
  refine ⟨fun b => ?_, ⟨(.type (typeOfBinding ctx i d).1, (typeOfBinding ctx i d).2), run, ?_⟩, run⟩
  · exact ⟨typeKey ctx.bindings b, keyOf_typeKey ctx.bindings b, fun key h => h.eq_typeKey⟩
  · rintro ⟨found, e⟩ other
    obtain ⟨same, rfl⟩ := Resolves.deterministic other run
    cases same
    rfl

end Draft

end Famix
