import Famix.Json.TaggedUnion
import Famix.Proofs.Scanning

/-!
How readers take the compact text of a value: as they take the value, also when they refuse it. So it is enough to see
what a reader makes of the value, and for records and unions that is put together from what it makes of the fields.
-/
namespace Famix.Json

/-- `a` if all is well, and otherwise `e`. -/
def verdict (e : Error) (well : Bool) (a : α) : Except Error α := if well then .ok a else .error e

theorem map_verdict {e : Error} {well : Bool} {a : α} (f : α → β) :
    (verdict e well a).map f = verdict e well (f a) := by
  cases well <;> rfl

namespace Reader

/-- The compact text of `v` is read as `v` is judged. -/
def Agrees (r : Reader α) (v : Value) : Prop :=
  ∀ {levels : Nat} {rest : List Char}, v.Fits levels → Delimited rest →
    outcome (r.scan levels (v.write ++ rest)) = (r.check v).map (·, rest)

theorem parse_compact {r : Reader α} {v : Value} (agrees : r.Agrees v) (fits : v.Fits nestingLimit) :
    r.parse v.compact = r.check v := by
  have read : outcome (r.scan nestingLimit (v.write ++ [])) = (r.check v).map (·, []) := agrees fits trivial
  rw [List.append_nil] at read
  unfold parse parseAll Value.compact
  rw [String.toList_ofList]
  cases judged : r.check v with
  | error e =>
    rw [judged] at read
    rw [outcome_eq_error.mp read]
    rfl
  | ok a =>
    rw [judged] at read
    obtain ⟨_, scanned⟩ := outcome_eq_ok.mp read
    rw [scanned]
    rfl

/-- The text of `v` is read as it is judged, and that is as `a` if all is well. -/
structure Takes (r : Reader α) (e : Error) (v : Value) (well : Bool) (a : α) : Prop where
  agrees : r.Agrees v
  check : r.check v = verdict e well a

variable {e : Error}

theorem Takes.of_eq {r : Reader α} {v : Value} {well same : Bool} {a : α} (takes : r.Takes e v well a)
    (eq : same = well) : r.Takes e v same a := by
  rw [eq]
  exact takes

theorem outcome_textFor (wanted : Wanted) (s : String) (rest : List Char) :
    outcome (textFor wanted ((Value.text s).write ++ rest)) = .ok (s, rest) := by
  have written : (Value.text s).write ++ rest = '"' :: (s.toList.flatMap writeChar ++ '"' :: rest) :=
    writeText_append s rest
  rw [written, textFor, onFirst_cons rfl]
  exact congrArg outcome (scanText_bind s rest _)

theorem takes_text (s : String) : text.Takes e (.text s) true s :=
  ⟨fun _ _ => outcome_textFor .text s _, rfl⟩

theorem takes_boolean (b : Bool) : boolean.Takes e (.boolean b) true b := by
  refine ⟨fun {levels rest} _ _ => ?_, rfl⟩
  unfold boolean
  cases b with
  | true =>
    have written : (Value.boolean true).write ++ rest = 't' :: ("rue".toList ++ rest) := rfl
    dsimp only
    rw [written, onFirst_cons rfl]
    exact congrArg outcome (scanIdent_bind "rue".toList rest _)
  | false =>
    have written : (Value.boolean false).write ++ rest = 'f' :: ("alse".toList ++ rest) := rfl
    dsimp only
    rw [written, onFirst_cons rfl]
    exact congrArg outcome (scanIdent_bind "alse".toList rest _)

theorem naturalOf_of_lt {bound n : Nat} (small : n < bound) (wanted : Wanted) :
    naturalOf bound wanted (.integer n) = .ok n := by
  have inside : (0 : Int) ≤ n ∧ (n : Int) < bound := by omega
  simp [naturalOf, inside]

theorem takes_natural {bound n : Nat} (small : n < bound) (wanted : Wanted) {levels : Nat}
    (fits : (Value.nat n).Fits levels) : (natural bound wanted).Takes e (.nat n) true n := by
  obtain ⟨k, word, same⟩ := Value.fits_number.mp fits
  obtain rfl : n = k := Int.ofNat_inj.mp (Number.integer.inj same)
  have check : (natural bound wanted).check (.nat n) = .ok n := naturalOf_of_lt small wanted
  refine ⟨fun {levels rest} _ after => ?_, check⟩
  rw [check]
  unfold natural
  dsimp only
  generalize text : (Value.nat n).write ++ rest = s
  obtain ⟨c, t, rfl, first, shorter, read⟩ := scanNumber_writeNatural word after text.symm
  rw [onFirst_cons (isBlank_of_isDigit first), if_neg (ne_of_isDigit first _ rfl), if_pos first, read]
  change outcome (naturalOf bound wanted (.integer n) >>= _) = _
  rw [naturalOf_of_lt small]
  rfl

theorem takes_index {n : Nat} {levels : Nat} (fits : (Value.nat n).Fits levels) :
    index.Takes e (.nat n) true n := by
  obtain ⟨k, small, same⟩ := Value.fits_number.mp fits
  obtain rfl : n = k := Int.ofNat_inj.mp (Number.integer.inj same)
  exact takes_natural small .word32 fits

theorem takes_choice {options : List (String × α)} {name : String} {a : α} (known : named options name = .ok a) :
    (choice options).Takes e (.text name) true a := by
  refine ⟨fun {levels rest} _ _ => ?_, known⟩
  have written : (Value.text name).write ++ rest = '"' :: (name.toList.flatMap writeChar ++ '"' :: rest) :=
    writeText_append name rest
  have check : (choice options).check (.text name) = .ok a := known
  rw [check, written]
  unfold choice
  dsimp only
  rw [onFirst_cons rfl]
  refine (congrArg outcome (scanText_bind name rest _)).trans ?_
  dsimp only
  rw [known]
  rfl

theorem takes_none (r : Reader α) : r.optional.Takes e .null true none := by
  refine ⟨fun {levels rest} _ _ => ?_, rfl⟩
  exact congrArg outcome (scanIdent_bind "ull".toList rest _)

theorem takes_some {r : Reader α} {v : Value} {well : Bool} {a : α} (takes : r.Takes e v well a)
    (notNull : v ≠ .null) : r.optional.Takes e v well (some a) := by
  have check : r.optional.check v = (r.check v).map some := by
    cases v <;> first | rfl | exact absurd rfl notNull
  refine ⟨fun {levels rest} fits after => ?_, by rw [check, takes.check, map_verdict]⟩
  obtain ⟨c, t, written, visible, -, notN⟩ := Value.write_first fits
  have scan : r.optional.scan levels (v.write ++ rest) = (r.scan levels (v.write ++ rest)).map (Taken.map some) := by
    rw [written, List.cons_append]
    unfold optional
    dsimp only
    split
    · next none => exact absurd (List.cons.inj ((skipBlank_cons visible _).symm.trans none)).1 (notN notNull)
    · rfl
  rw [scan, outcome_map, takes.agrees fits after, check]
  cases r.check v <;> rfl

theorem takes_map {r : Reader α} {v : Value} {well : Bool} {a : α} (takes : r.Takes e v well a) (f : α → β) :
    (r.map f).Takes e v well (f a) := by
  have check : (r.map f).check v = (r.check v).map f := rfl
  refine ⟨fun {levels rest} fits after => ?_, by rw [check, takes.check, map_verdict]⟩
  rw [check, map, outcome_map, takes.agrees fits after]
  cases r.check v <;> rfl

/-- The same for the items of a list, which are all well if each is. -/
inductive TakesAll (r : Reader α) (e : Error) : List Value → Bool → List α → Prop where
  | nil : TakesAll r e [] true []
  | cons {v : Value} {vs : List Value} {first others : Bool} {a : α} {as : List α} (own : r.Takes e v first a)
      (rest : TakesAll r e vs others as) : TakesAll r e (v :: vs) (first && others) (a :: as)

theorem TakesAll.agrees {r : Reader α} {vs : List Value} {well : Bool} {as : List α}
    (takes : r.TakesAll e vs well as) : ∀ v ∈ vs, r.Agrees v := by
  induction takes with
  | nil => exact fun _ mem => absurd mem List.not_mem_nil
  | cons own _ ih => exact List.forall_mem_cons.mpr ⟨own.agrees, ih⟩

theorem TakesAll.check {r : Reader α} {vs : List Value} {well : Bool} {as : List α}
    (takes : r.TakesAll e vs well as) : vs.mapM r.check = verdict e well as := by
  induction takes with
  | nil => rfl
  | @cons _ _ first others _ _ own _ ih =>
    rw [List.mapM_cons, own.check, ih]
    cases first <;> cases others <;> rfl

theorem takes_list {r : Reader α} {vs : List Value} {well : Bool} {as : List α} (takes : r.TakesAll e vs well as) :
    r.list.Takes e (.array vs) well as := by
  refine ⟨fun {levels rest} fits after => ?_, takes.check⟩
  obtain ⟨n, rfl, each⟩ := Value.fits_array.mp fits
  have loop := scanItems_write r.check each (fun v mem rest after => takes.agrees v mem (each v mem) after)
    ('[' :: (remainingItems true vs ++ rest)) [] true rfl (Nat.le_succ _)
  rw [write_array, List.cons_append, list]
  dsimp only
  rw [onFirst_cons rfl]
  exact loop

end Reader

theorem Reader.takes_option {r : Reader α} {e : Error} {write : α → Value} {o : Option α}
    (own : ∀ a, o = some a → r.Takes e (write a) true a) (notNull : ∀ a, write a ≠ .null) :
    r.optional.Takes e (.option write o) true o := by
  cases o with
  | none => exact takes_none r
  | some a => exact takes_some (own a rfl) (notNull a)

theorem Reader.takesAll_map {r : Reader α} {e : Error} {write : α → Value} (well : α → Bool) {items : List α}
    (own : ∀ a ∈ items, r.Takes e (write a) (well a) a) : r.TakesAll e (items.map write) (items.all well) items := by
  induction items with
  | nil => exact .nil
  | cons a items ih =>
    obtain ⟨first, others⟩ := List.forall_mem_cons.mp own
    exact .cons first (ih others)

theorem Reader.takes_each {r : Reader α} {e : Error} {write : α → Value} {items : List α}
    (own : ∀ a ∈ items, r.Takes e (write a) true a) : r.list.Takes e (.list write items) true items :=
  (takes_list (takesAll_map (fun _ => true) own)).of_eq (by simp)

/-- What is gathered from an object is judged at its end. -/
theorem outcome_finish {s rest : List Char} {r : Except Error (Taken s α)} {gathered : Except Error α}
    (read : outcome r = gathered.map (·, rest)) (finish : α → Except Error β) (build : β → γ) :
    outcome (r >>= fun t => finish t.value >>= fun b => .ok (t.map fun _ => build b)) =
      ((gathered >>= finish).map build).map (·, rest) := by
  cases gathered with
  | error _ =>
    rw [outcome_eq_error.mp read]
    rfl
  | ok a =>
    obtain ⟨_, scanned⟩ := outcome_eq_ok.mp read
    rw [scanned]
    change outcome (finish a >>= _) = ((finish a).map build).map _
    cases finish a <;> rfl

/-! Records. -/

namespace Field

@[simp] theorem name_required (name : String) (r : Reader α) : (required name r).name = name := rfl

@[simp] theorem name_withDefault (name : String) (r : Reader α) (a : α) : (withDefault name r a).name = name := rfl

@[simp] theorem name_optional (name : String) (r : Reader α) : (Field.optional name r).name = name := rfl

@[simp] theorem name_list (name : String) (r : Reader α) : (Field.list name r).name = name := rfl

@[simp] theorem name_flag (name : String) : (flag name).name = name := rfl

end Field

def Slots.cons (slot : Option α) (others : Slots αs) : Slots (α :: αs) := (slot, others)

namespace Fields

def names : Fields αs → List String
  | .nil => []
  | .cons field rest => field.name :: rest.names

/-- The field called `name` reads the text of `v` as it judges `v`. -/
def Agrees (name : String) (v : Value) : Fields αs → Prop
  | .nil => False
  | .cons field rest => if field.name = name then field.reader.Agrees v else rest.Agrees name v

/-- The fields, in their declared order, take the entries of an object one by one. -/
inductive Takes (e : Error) : {αs : List Type} → Fields αs → List (String × Value) → Bool → Tuple αs → Prop where
  | nil : Takes e .nil [] true ()
  | cons {α : Type} {αs : List Type} {field : Field α} {rest : Fields αs} {v : Value} {entries : List (String × Value)}
      {first others : Bool} {a : α} {tuple : Tuple αs} (own : field.reader.Takes e v first a)
      (remaining : Takes e rest entries others tuple) :
      Takes e (.cons field rest) ((field.name, v) :: entries) (first && others) (a, tuple)

variable {e : Error}

theorem fill_agrees {fields : Fields αs} {name : String} {v : Value} (agrees : fields.Agrees name v) {n : Nat}
    (fits : v.Fits n) {rest : List Char} (after : Delimited rest) (slots : Slots αs) :
    ∃ scanned judged,
      fields.fill Taken.map (fun r => afterColon (r.scan n) (':' :: (v.write ++ rest))) name slots = some scanned ∧
      fields.fill (f := fun α => α) (fun g => g) (fun r => r.check v) name slots = some judged ∧
      outcome scanned = judged.map (·, rest) := by
  induction fields with
  | nil => exact absurd agrees id
  | cons field others ih =>
    obtain ⟨slot, slots⟩ := slots
    by_cases same : field.name = name
    · rw [Agrees, if_pos same] at agrees
      cases slot with
      | some _ => exact ⟨_, _, by simp only [fill, if_pos same]; rfl, by simp only [fill, if_pos same]; rfl, rfl⟩
      | none =>
        refine ⟨_, _, by simp only [fill, if_pos same]; rfl, by simp only [fill, if_pos same]; rfl, ?_⟩
        -- `rw` would not see that the slots of all fields are a slot and the slots of the others
        refine (outcome_map _ _).trans ?_
        rw [outcome_afterColon, agrees fits after]
        cases field.reader.check v <;> rfl
    · rw [Agrees, if_neg same] at agrees
      obtain ⟨scanned, judged, scan, check, read⟩ := ih agrees slots
      refine ⟨_, _, by simp only [fill, if_neg same, scan]; rfl, by simp only [fill, if_neg same, check]; rfl, ?_⟩
      refine (outcome_map _ _).trans ?_
      rw [read]
      cases judged <;> rfl

theorem scanField_agrees {fields : Fields αs} {name : String} {v : Value} (agrees : fields.Agrees name v) {n : Nat}
    (fits : v.Fits n) {rest : List Char} (after : Delimited rest) (slots : Slots αs) :
    outcome (fields.scanField n slots name (':' :: (v.write ++ rest))) =
      (fields.checkField slots (name, v)).map (·, rest) := by
  obtain ⟨scanned, judged, scan, check, read⟩ := fill_agrees agrees fits after slots
  unfold scanField checkField
  rw [scan]
  dsimp only
  rw [check]
  exact read

theorem checkField_own (field : Field α) (rest : Fields αs) (others : Slots αs) (v : Value) :
    (Fields.cons field rest).checkField (.cons none others) (field.name, v) =
      (field.reader.check v).map fun a => .cons (some a) others := by
  simp only [checkField, fill, Slots.cons, if_pos]

theorem checkField_other {field : Field α} {entry : String × Value} (apart : field.name ≠ entry.1) (rest : Fields αs)
    (slot : Option α) (others : Slots αs) :
    (Fields.cons field rest).checkField (.cons slot others) entry =
      (rest.checkField others entry).map (.cons slot) := by
  simp only [checkField, fill, Slots.cons, if_neg apart]
  cases rest.fill (f := fun α => α) (fun g => g) (fun r => r.check entry.2) entry.1 others <;> rfl

/-- Entries for other fields go by the first one. -/
theorem foldlM_other {field : Field α} {entries : List (String × Value)}
    (apart : ∀ entry ∈ entries, field.name ≠ entry.1) (rest : Fields αs) (slot : Option α) (others : Slots αs) :
    entries.foldlM (Fields.cons field rest).checkField (.cons slot others) =
      (entries.foldlM rest.checkField others).map (.cons slot) := by
  induction entries generalizing others with
  | nil => rfl
  | cons entry entries ih =>
    obtain ⟨own, remaining⟩ := List.forall_mem_cons.mp apart
    rw [List.foldlM_cons, List.foldlM_cons, checkField_other own]
    cases rest.checkField others entry with
    | error _ => rfl
    | ok others => exact ih remaining others

theorem finish_cons (field : Field α) (rest : Fields αs) (a : α) (filled : Except Error (Slots αs)) :
    (filled.map (.cons (some a)) >>= (Fields.cons field rest).finish) =
      (filled >>= rest.finish).map fun tuple => (a, tuple) := by
  cases filled with
  | error _ => rfl
  | ok slots =>
    change (Fields.cons field rest).finish (.cons (some a) slots) = (rest.finish slots).map _
    simp only [finish, Slots.cons]
    cases rest.finish slots <;> rfl

theorem Takes.names_eq {fields : Fields αs} {entries : List (String × Value)} {well : Bool} {tuple : Tuple αs}
    (takes : fields.Takes e entries well tuple) : entries.map Prod.fst = fields.names := by
  induction takes with
  | nil => rfl
  | cons _ _ ih => rw [List.map_cons, ih, names]

theorem Takes.apart {field : Field α} {rest : Fields αs} {entries : List (String × Value)} {well : Bool}
    {tuple : Tuple αs} (takes : rest.Takes e entries well tuple) (distinct : (Fields.cons field rest).names.Nodup) :
    ∀ entry ∈ entries, field.name ≠ entry.1 := by
  intro entry mem same
  have listed := List.mem_map_of_mem (f := Prod.fst) mem
  rw [takes.names_eq, ← same] at listed
  exact (List.nodup_cons.mp distinct).1 listed

theorem Takes.agrees {fields : Fields αs} {entries : List (String × Value)} {well : Bool} {tuple : Tuple αs}
    (takes : fields.Takes e entries well tuple) (distinct : fields.names.Nodup) :
    ∀ entry ∈ entries, fields.Agrees entry.1 entry.2 := by
  induction takes with
  | nil => exact fun _ mem => absurd mem List.not_mem_nil
  | cons own remaining ih =>
    have others := ih (List.nodup_cons.mp distinct).2
    refine List.forall_mem_cons.mpr ⟨?_, fun entry mem => ?_⟩
    · rw [Agrees, if_pos rfl]
      exact own.agrees
    · rw [Agrees, if_neg (remaining.apart distinct entry mem)]
      exact others entry mem

theorem Takes.check {fields : Fields αs} {entries : List (String × Value)} {well : Bool} {tuple : Tuple αs}
    (takes : fields.Takes e entries well tuple) (distinct : fields.names.Nodup) :
    (entries.foldlM fields.checkField fields.emptySlots >>= fields.finish) = verdict e well tuple := by
  induction takes with
  | nil => rfl
  | @cons _ _ field rest v entries first others a tuple own remaining ih =>
    have finished := ih (List.nodup_cons.mp distinct).2
    have empty : (Fields.cons field rest).emptySlots = .cons none rest.emptySlots := rfl
    rw [List.foldlM_cons, empty, checkField_own, own.check, map_verdict]
    cases first with
    | false => rfl
    | true =>
      -- the first slot is filled, and no other entry is for it
      refine (congrArg (· >>= _) (foldlM_other (remaining.apart distinct) rest (some a) rest.emptySlots)).trans ?_
      rw [finish_cons, finished, map_verdict]
      rfl

end Fields

theorem Reader.takes_record {r : Reader α} {title : String} {fields : Fields αs} {build : Tuple αs → α}
    (isRecord : r = .record title fields build) {entries : List (String × Value)} {e : Error} {well : Bool}
    {tuple : Tuple αs} (takes : fields.Takes e entries well tuple) (distinct : fields.names.Nodup) {a : α}
    (built : build tuple = a) {same : Bool} (eq : same = well) : r.Takes e (.object entries) same a := by
  subst isRecord built eq
  have check : (record title fields build).check (.object entries) =
      (entries.foldlM fields.checkField fields.emptySlots >>= fields.finish).map build := by
    change (entries.foldlM fields.checkField fields.emptySlots >>= fun slots =>
      fields.finish slots >>= fun tuple => .ok (build tuple)) = _
    cases entries.foldlM fields.checkField fields.emptySlots with
    | error _ => rfl
    | ok slots =>
      change (fields.finish slots >>= _) = (fields.finish slots).map build
      cases fields.finish slots <;> rfl
  refine ⟨fun {levels rest} fits after => ?_, by rw [check, takes.check distinct, map_verdict]⟩
  obtain ⟨n, rfl, each⟩ := Value.fits_object.mp fits
  have loop := scanFields_write fields.checkField (fun entry mem slots rest after =>
    fields.scanField_agrees (takes.agrees distinct entry mem) (each entry mem) after slots)
    ('{' :: (remainingFields true entries ++ rest)) fields.emptySlots true rfl (Nat.le_succ _)
  rw [check, write_object, List.cons_append, record]
  dsimp only
  rw [onFirst_cons rfl]
  exact outcome_finish loop fields.finish build

/-! Unions. -/

namespace TaggedUnion

variable {u : TaggedUnion α} {e : Error}

theorem scanField_agrees {entry : String × Value} (texts : entry.1 = u.tag → ∃ s, entry.2 = .text s) {n : Nat}
    (fits : entry.2.Fits n) {rest : List Char} (after : Delimited rest) (parts : Parts α) :
    outcome (u.scanField n parts entry.1 (':' :: (entry.2.write ++ rest))) =
      (u.checkField parts entry).map (·, rest) := by
  unfold scanField checkField
  by_cases isTag : entry.1 = u.tag
  · obtain ⟨name, text⟩ := texts isTag
    rw [if_pos isTag, if_pos isTag, text]
    cases parts.variant with
    | some _ => rfl
    | none =>
      dsimp only
      rw [outcome_map, outcome_afterColon]
      have read : outcome (Reader.textFor .variantName _) = (Except.ok name).map (·, rest) :=
        Reader.outcome_textFor .variantName name rest
      have tagged : outcome (u.scanTag ((Value.text name).write ++ rest)) =
          ((named u.variants name).map id).map (·, rest) := outcome_finish read (named u.variants) id
      rw [tagged]
      change _ = ((named u.variants name).map _).map _
      cases named u.variants name <;> rfl
  · rw [if_neg isTag, if_neg isTag, outcome_map, outcome_afterColon, scanValue_write fits after]
    rfl

theorem agrees {entries : List (String × Value)} (texts : ∀ entry ∈ entries, entry.1 = u.tag → ∃ s, entry.2 = .text s) :
    u.reader.Agrees (.object entries) := by
  intro levels rest fits after
  obtain ⟨n, rfl, each⟩ := Value.fits_object.mp fits
  have loop := scanFields_write u.checkField (fun entry mem parts rest after =>
    scanField_agrees (texts entry mem) (each entry mem) after parts)
    ('{' :: (remainingFields true entries ++ rest)) {} true rfl (Nat.le_succ _)
  rw [write_object, List.cons_append, reader]
  dsimp only
  rw [onFirst_cons rfl]
  refine (outcome_finish loop u.finish id).trans ?_
  change _ = (entries.foldlM u.checkField {} >>= u.finish).map _
  cases entries.foldlM u.checkField {} >>= u.finish <;> rfl

theorem foldlM_untagged {entries : List (String × Value)} (untagged : ∀ entry ∈ entries, entry.1 ≠ u.tag)
    (parts : Parts α) :
    entries.foldlM u.checkField parts = .ok { parts with fields := entries.reverse ++ parts.fields } := by
  induction entries generalizing parts with
  | nil => rfl
  | cons entry entries ih =>
    obtain ⟨own, others⟩ := List.forall_mem_cons.mp untagged
    have step : u.checkField parts entry = .ok { parts with fields := entry :: parts.fields } := by
      rw [checkField, if_neg own]
    rw [List.foldlM_cons, step]
    refine (ih others _).trans ?_
    simp

theorem foldlM_again {entries : List (String × Value)} (again : ∃ entry ∈ entries, entry.1 = u.tag) {parts : Parts α}
    {variant : Reader α} (known : parts.variant = some variant) :
    entries.foldlM u.checkField parts = .error (.duplicateField u.tag) := by
  induction entries generalizing parts with
  | nil => simp at again
  | cons entry entries ih =>
    rw [List.foldlM_cons, checkField]
    by_cases isTag : entry.1 = u.tag
    · rw [if_pos isTag, known]
      rfl
    · obtain ⟨other, mem, same⟩ := again
      have later : other ∈ entries := (List.mem_cons.mp mem).resolve_left fun h => isTag (h ▸ same)
      rw [if_neg isTag]
      exact ih ⟨other, later, same⟩ known

theorem check_tag {name : String} {variant : Reader α} (known : named u.variants name = .ok variant)
    (entries : List (String × Value)) :
    u.reader.check (.object ((u.tag, .text name) :: entries)) =
      (entries.foldlM u.checkField { variant := some variant } >>= u.finish) := by
  have step : u.checkField {} (u.tag, .text name) = .ok { variant := some variant } := by
    simp [checkField, checkTag, known, Except.map]
  change (((u.tag, Value.text name) :: entries).foldlM u.checkField {} >>= u.finish) = _
  rw [List.foldlM_cons, step]
  rfl

/-- With its tag in front, an object without another tag is taken as the variant takes the rest of it. -/
theorem takes_variant (name : String) {variant : Reader α} (known : named u.variants name = .ok variant)
    {entries : List (String × Value)} (untagged : ∀ entry ∈ entries, entry.1 ≠ u.tag) {well : Bool} {a : α}
    (takes : variant.Takes e (.object entries) well a) :
    u.reader.Takes e (.object ((u.tag, .text name) :: entries)) well a := by
  refine ⟨agrees ?_, ?_⟩
  · refine List.forall_mem_cons.mpr ⟨fun _ => ⟨name, rfl⟩, fun entry mem isTag => absurd isTag (untagged entry mem)⟩
  · rw [check_tag known, foldlM_untagged untagged, ← takes.check]
    simp [bind, Except.bind, finish]

theorem takes_fields (name : String) {title : String} {fields : Fields αs} {build : Tuple αs → α}
    (known : named u.variants name = .ok (.record title fields build)) {entries : List (String × Value)} {well : Bool}
    {tuple : Tuple αs} (takes : fields.Takes e entries well tuple) (distinct : (u.tag :: fields.names).Nodup) {a : α}
    (built : build tuple = a) {same : Bool} (eq : same = well) :
    u.reader.Takes e (.object ((u.tag, .text name) :: entries)) same a := by
  obtain ⟨untagged, distinct⟩ := List.nodup_cons.mp distinct
  refine takes_variant name known (fun entry mem isTag => untagged ?_) (Reader.takes_record rfl takes distinct built eq)
  rw [← takes.names_eq, ← isTag]
  exact List.mem_map_of_mem mem

/-- With its tag in front, an object with another tag is refused. -/
theorem takes_again (name : String) {variant : Reader α} (known : named u.variants name = .ok variant)
    {entries : List (String × Value)} (texts : ∀ entry ∈ entries, entry.1 = u.tag → ∃ s, entry.2 = .text s)
    (again : ∃ entry ∈ entries, entry.1 = u.tag) (a : α) :
    u.reader.Takes (.duplicateField u.tag) (.object ((u.tag, .text name) :: entries)) false a := by
  refine ⟨agrees (List.forall_mem_cons.mpr ⟨fun _ => ⟨name, rfl⟩, texts⟩), ?_⟩
  rw [check_tag known, foldlM_again again rfl]
  rfl

end TaggedUnion

end Famix.Json
