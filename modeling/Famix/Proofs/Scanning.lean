import Famix.Json.Reader
import Famix.Json.Writer
import Mathlib.Tactic.SplitIfs

/-!
Compact texts are scanned back. What has been written of a value is taken from the front of a text, and what follows
it is left. This holds for values whose numbers are indices, since a number with a fraction may be written in
another way than it was read.
-/
namespace Famix.Json

/-- What was read, and what is left. -/
def outcome {s : List Char} (r : Except Error (Taken s α)) : Except Error (α × List Char) :=
  r.map fun t => (t.value, t.rest)

theorem outcome_eq_ok {s rest : List Char} {r : Except Error (Taken s α)} {a : α} :
    outcome r = .ok (a, rest) ↔ ∃ shorter, r = .ok ⟨a, rest, shorter⟩ := by
  constructor
  · intro h
    match r, h with
    | .ok ⟨_, _, shorter⟩, rfl => exact ⟨shorter, rfl⟩
  · rintro ⟨_, rfl⟩
    rfl

theorem outcome_eq_error {s : List Char} {r : Except Error (Taken s α)} {e : Error} :
    outcome r = .error e ↔ r = .error e := by
  cases r <;> simp [outcome, Except.map]

theorem outcome_bind {s : List Char} (r : Except Error (Taken s α)) (f : α → β) :
    outcome (r >>= fun t => .ok (t.map f)) = (outcome r).map (Prod.map f id) := by
  cases r <;> rfl

theorem outcome_map {s : List Char} (r : Except Error (Taken s α)) (f : α → β) :
    outcome (r.map (Taken.map f)) = (outcome r).map (Prod.map f id) := by
  cases r <;> rfl

/-- What can follow a value in a compact text. -/
def Delimited : List Char → Prop
  | [] => True
  | c :: _ => c = ',' ∨ c = ']' ∨ c = '}'

theorem skipBlank_cons {c : Char} (visible : isBlank c = false) (t : List Char) : skipBlank (c :: t) = c :: t := by
  simp [skipBlank, visible]

theorem onFirst_cons {c : Char} {t : List Char} (visible : isBlank c = false)
    (next : (d : Char) → (u : List Char) → u.length < (c :: t).length → Except Error (Taken (c :: t) α)) :
    onFirst (c :: t) next = next c t (Nat.lt_succ_self _) := by
  unfold onFirst
  split
  · next none => cases (skipBlank_cons visible t).symm.trans none
  · next first =>
    cases (skipBlank_cons visible t).symm.trans first
    rfl

theorem scanIdent_append (letters rest : List Char) :
    ∃ le, scanIdent letters (letters ++ rest) = .ok ⟨(), rest, le⟩ := by
  induction letters with
  | nil => exact ⟨Nat.le_refl _, rfl⟩
  | cons c letters ih =>
    obtain ⟨le, done⟩ := ih
    exact ⟨Nat.le_succ_of_le le, by simp only [List.cons_append, scanIdent, if_pos, done]; rfl⟩

theorem scanIdent_bind (letters rest : List Char) (f : Passed (letters ++ rest) Unit → Except Error α) :
    (scanIdent letters (letters ++ rest) >>= f) = f ⟨(), rest, (List.sublist_append_right ..).length_le⟩ := by
  obtain ⟨_, read⟩ := scanIdent_append letters rest
  rw [read]
  rfl

/-! Strings. -/

/-- A character is written behind a backslash, by its number, or as it is. -/
theorem writeChar_cases (c : Char) :
    (∃ e, writeChar c = ['\\', e] ∧ e ≠ 'u' ∧ shortEscape e = some c) ∨
      (writeChar c = ['\\', 'u', '0', '0', hexDigit (c.toNat / 16), hexDigit c.toNat] ∧ c.toNat < 0x20) ∨
      (writeChar c = [c] ∧ c ≠ '"' ∧ c ≠ '\\' ∧ ¬c.toNat < 0x20) := by
  unfold writeChar
  split_ifs with quote backslash back feed line carriage tab control
  · exact .inl ⟨'"', rfl, by decide, by rw [quote]; rfl⟩
  · exact .inl ⟨'\\', rfl, by decide, by rw [backslash]; rfl⟩
  · exact .inl ⟨'b', rfl, by decide, by rw [back]; rfl⟩
  · exact .inl ⟨'f', rfl, by decide, by rw [feed]; rfl⟩
  · exact .inl ⟨'n', rfl, by decide, by rw [line]; rfl⟩
  · exact .inl ⟨'r', rfl, by decide, by rw [carriage]; rfl⟩
  · exact .inl ⟨'t', rfl, by decide, by rw [tab]; rfl⟩
  · exact .inr (.inl ⟨rfl, control⟩)
  · exact .inr (.inr ⟨rfl, quote, backslash, control⟩)

theorem hexNumber_hexDigit :
    ∀ n < 0x20, hexNumber ['0', '0', hexDigit (n / 16), hexDigit n] = some n ∧
      isLowSurrogate n = false ∧ isHighSurrogate n = false := by decide

theorem scanUnicode_hexDigit {c : Char} (control : c.toNat < 0x20) (t : List Char) :
    ∃ shorter, scanUnicode ('0' :: '0' :: hexDigit (c.toNat / 16) :: hexDigit c.toNat :: t) =
      .ok ⟨c, t, shorter⟩ := by
  obtain ⟨number, low, high⟩ := hexNumber_hexDigit c.toNat control
  refine ⟨by simp only [List.length_cons]; omega, ?_⟩
  simp only [scanUnicode, scanHex, number, low, high, bind, Except.bind, Bool.false_eq_true, if_false, Char.ofNat_toNat]

theorem scanCharacters_writeChar {whole taken t : List Char} {c : Char}
    (h : (writeChar c ++ t).length < whole.length) (h' : t.length < whole.length) :
    scanCharacters whole taken (writeChar c ++ t) h = scanCharacters whole (c :: taken) t h' := by
  rcases writeChar_cases c with ⟨e, written, notNumber, stands⟩ | ⟨written, control⟩ | ⟨written, notQuote, notBackslash,
    visible⟩
  · simp only [written, List.cons_append, List.nil_append]
    rw [scanCharacters]
    simp [scanEscape, notNumber, stands]
  · obtain ⟨shorter, read⟩ := scanUnicode_hexDigit control t
    simp only [written, List.cons_append, List.nil_append]
    rw [scanCharacters]
    simp [scanEscape, read, bind, Except.bind]
  · simp only [written, List.cons_append, List.nil_append]
    rw [scanCharacters]
    simp [notQuote, notBackslash, visible]

theorem scanCharacters_flatMap (whole : List Char) {rest : List Char} (taken cs : List Char)
    (h : (cs.flatMap writeChar ++ '"' :: rest).length < whole.length) :
    ∃ shorter, scanCharacters whole taken (cs.flatMap writeChar ++ '"' :: rest) h =
      .ok ⟨String.ofList (taken.reverse ++ cs), rest, shorter⟩ := by
  induction cs generalizing taken with
  | nil =>
    refine ⟨Nat.lt_of_succ_lt h, ?_⟩
    simp only [List.flatMap_nil, List.nil_append]
    rw [scanCharacters]
    simp
  | cons c cs ih =>
    have less : (cs.flatMap writeChar ++ '"' :: rest).length < whole.length := by
      simp only [List.flatMap_cons, List.append_assoc, List.length_append] at h ⊢
      omega
    obtain ⟨shorter, read⟩ := ih (c :: taken) less
    refine ⟨shorter, ?_⟩
    simp only [List.flatMap_cons, List.append_assoc] at h ⊢
    rw [scanCharacters_writeChar h less, read]
    simp

theorem scanText_write (s : String) (rest : List Char) :
    ∃ shorter, scanText (s.toList.flatMap writeChar ++ '"' :: rest) = .ok ⟨s, rest, shorter⟩ := by
  unfold scanText
  obtain ⟨shorter, read⟩ := scanCharacters_flatMap ('"' :: (s.toList.flatMap writeChar ++ '"' :: rest)) []
    s.toList (Nat.lt_succ_self _)
  exact ⟨shorter, by simpa using read⟩

theorem scanText_bind (s : String) (rest : List Char)
    (f : Taken ('"' :: (s.toList.flatMap writeChar ++ '"' :: rest)) String → Except Error α) :
    (scanText (s.toList.flatMap writeChar ++ '"' :: rest) >>= f) =
      f ⟨s, rest, by simp only [List.length_cons, List.length_append]; omega⟩ := by
  obtain ⟨_, read⟩ := scanText_write s rest
  rw [read]
  rfl

theorem writeText_append (s : String) (rest : List Char) :
    writeText s ++ rest = '"' :: (s.toList.flatMap writeChar ++ '"' :: rest) := by
  simp [writeText]

/-! Indices. -/

namespace Numeral

theorem absorb_of_lt (digits : List Char) (acc : Nat)
    (fits : Nat.ofDigitChars 10 digits acc < 0x10000000000000000) :
    absorb acc digits = (Nat.ofDigitChars 10 digits acc, digits.length) := by
  induction digits generalizing acc with
  | nil => rfl
  | cons c digits ih =>
    have same : 10 * acc + (c.toNat - '0'.toNat) = acc * 10 + digitValue c := by rw [digitValue, Nat.mul_comm]
    rw [Nat.ofDigitChars_cons, same] at fits ⊢
    -- digits only make a number larger
    have next : acc * 10 + digitValue c < 0x10000000000000000 := by
      refine Nat.lt_of_le_of_lt ?_ fits
      rw [Nat.ofDigitChars_eq_ofDigitChars_zero]
      exact Nat.le_add_right_of_le (Nat.le_mul_of_pos_left _ (Nat.pow_pos (by decide)))
    simp only [absorb, if_pos next, ih _ fits, List.length_cons]

theorem head?_toDigits {n : Nat} (positive : 0 < n) : (Nat.toDigits 10 n).head? ≠ some '0' := by
  induction n using Nat.strongRecOn with
  | ind n ih =>
    rw [Nat.toDigits_eq_if (by decide)]
    split
    · next small =>
      have digits : ∀ d < 10, 0 < d → d.digitChar ≠ '0' := by decide
      simpa using digits n small positive
    · next large =>
      have fewer := ih (n / 10) (by omega) (by omega)
      cases front : Nat.toDigits 10 (n / 10) with
      | nil => exact absurd front Nat.toDigits_ne_nil
      | cons c others => simpa [front] using fewer

theorem scanDigits_append (ended : Error) {c : Char} {digits rest : List Char} (first : c.isDigit)
    (all : ∀ d ∈ digits, d.isDigit) (after : Delimited rest) :
    ∃ shorter, scanDigits ended (c :: (digits ++ rest)) = .ok ⟨c :: digits, rest, shorter⟩ := by
  have stop : rest.takeWhile Char.isDigit = [] ∧ rest.dropWhile Char.isDigit = rest := by
    cases rest with
    | nil => exact ⟨rfl, rfl⟩
    | cons d rest => rcases after with rfl | rfl | rfl <;> exact ⟨rfl, rfl⟩
  refine ⟨by simp only [List.length_cons, List.length_append]; omega, ?_⟩
  simp only [scanDigits, if_pos first, List.takeWhile_append_of_pos all, List.dropWhile_append_of_pos all, stop,
    List.append_nil]

theorem writeNatural_cons (n : Nat) :
    ∃ c digits, writeNatural n = c :: digits ∧ c.isDigit ∧ ∀ d ∈ digits, d.isDigit := by
  have all : ∀ d ∈ writeNatural n, d.isDigit := fun _ mem => Nat.isDigit_of_mem_toDigits (by decide) (by decide) mem
  cases written : writeNatural n with
  | nil => exact absurd written Nat.toDigits_ne_nil
  | cons c digits => exact ⟨c, digits, rfl, List.forall_mem_cons.mp (written ▸ all)⟩

theorem scan_writeNatural (n : Nat) {rest : List Char} (after : Delimited rest) :
    ∃ shorter, scan .endInValue false (writeNatural n ++ rest) =
      .ok ⟨⟨false, writeNatural n, none, none⟩, rest, shorter⟩ := by
  have plain : ¬((writeNatural n).head? = some '0' ∧ (writeNatural n).length ≠ 1) := by
    rintro ⟨zero, more⟩
    rcases Nat.eq_zero_or_pos n with rfl | positive
    · exact more rfl
    · exact head?_toDigits positive zero
  have fraction : scanFraction .endInValue rest = .ok ⟨none, rest, Nat.le_refl _⟩ := by
    cases rest with
    | nil => rfl
    | cons d rest => rcases after with rfl | rfl | rfl <;> rfl
  have exponent : scanExponent .endInValue rest = .ok ⟨none, rest, Nat.le_refl _⟩ := by
    cases rest with
    | nil => rfl
    | cons d rest => rcases after with rfl | rfl | rfl <;> rfl
  obtain ⟨c, digits, written, first, all⟩ := writeNatural_cons n
  rw [written] at plain ⊢
  obtain ⟨shorter, read⟩ := scanDigits_append .endInValue first all after
  refine ⟨shorter, ?_⟩
  simp only [scan, List.cons_append, read, fraction, exponent, bind, Except.bind, if_neg plain]

end Numeral

theorem ne_of_isDigit {c : Char} (digit : c.isDigit) (d : Char) (other : d.isDigit = false) : c ≠ d := by
  rintro rfl
  exact absurd digit (by simp [other])

theorem isBlank_of_isDigit {c : Char} (digit : c.isDigit) : isBlank c = false := by
  have apart := ne_of_isDigit digit
  simp [isBlank, apart ' ' rfl, apart '\n' rfl, apart '\t' rfl, apart '\r' rfl]

theorem scanNumber_writeNatural {n : Nat} (small : n < 0x100000000) {rest s : List Char} (after : Delimited rest)
    (text : s = writeNatural n ++ rest) :
    ∃ c t, s = c :: t ∧ c.isDigit ∧ ∃ shorter, scanNumber false s = .ok ⟨.integer n, rest, shorter⟩ := by
  obtain ⟨c, digits, written, first, -⟩ := Numeral.writeNatural_cons n
  refine ⟨c, digits ++ rest, by rw [text, written]; rfl, first, ?_⟩
  subst text
  obtain ⟨shorter, read⟩ := Numeral.scan_writeNatural n after
  have value : Nat.ofDigitChars 10 (writeNatural n) 0 = n := Nat.ofDigitChars_ten_toDigits
  have absorbed := Numeral.absorb_of_lt (writeNatural n) 0 (by omega)
  rw [value] at absorbed
  refine ⟨shorter, ?_⟩
  simp only [scanNumber, read, bind, Except.bind, Numeral.number, absorbed, Nat.sub_self]
  rfl

/-! Values that fit into a text. -/

/-- An unsigned integer of 32 bits. -/
def Number.IsIndex (n : Number) : Prop := ∃ k : Nat, k < 0x100000000 ∧ n = .integer k

namespace Value

mutual
def numbers : Value → List Number
  | .number n => [n]
  | .array items => numbersItems items
  | .object fields => numbersFields fields
  | _ => []

def numbersItems : List Value → List Number
  | [] => []
  | v :: rest => v.numbers ++ numbersItems rest

def numbersFields : List (String × Value) → List Number
  | [] => []
  | (_, v) :: rest => v.numbers ++ numbersFields rest
end

/-- At most `levels` arrays and objects stand inside each other, and all numbers are indices. -/
structure Fits (levels : Nat) (v : Value) : Prop where
  depth : v.depth ≤ levels
  numbers : ∀ n ∈ v.numbers, n.IsIndex

theorem depthItems_le {items : List Value} {n : Nat} : depthItems items ≤ n ↔ ∀ v ∈ items, v.depth ≤ n := by
  induction items with
  | nil => simp [depthItems]
  | cons v rest ih => rw [depthItems, Nat.max_le, ih, List.forall_mem_cons]

theorem mem_numbersItems {items : List Value} {n : Number} : n ∈ numbersItems items ↔ ∃ v ∈ items, n ∈ v.numbers := by
  induction items with
  | nil => simp [numbersItems]
  | cons v rest ih => simp [numbersItems, ih]

theorem depthFields_eq (fields : List (String × Value)) : depthFields fields = depthItems (fields.map Prod.snd) := by
  induction fields with
  | nil => rfl
  | cons e rest ih => rw [depthFields, ih, List.map_cons, depthItems]

theorem numbersFields_eq (fields : List (String × Value)) :
    numbersFields fields = numbersItems (fields.map Prod.snd) := by
  induction fields with
  | nil => rfl
  | cons e rest ih => rw [numbersFields, ih, List.map_cons, numbersItems]

theorem fits_array {items : List Value} {levels : Nat} :
    (array items).Fits levels ↔ ∃ n, levels = n + 1 ∧ ∀ v ∈ items, v.Fits n := by
  constructor
  · rintro ⟨depth, numbers⟩
    rw [Value.depth] at depth
    rw [Value.numbers] at numbers
    refine ⟨levels - 1, by omega, fun v mem => ⟨depthItems_le.mp (by omega) v mem, fun n h => ?_⟩⟩
    exact numbers n (mem_numbersItems.mpr ⟨v, mem, h⟩)
  · rintro ⟨n, rfl, each⟩
    refine ⟨?_, fun m h => ?_⟩
    · rw [Value.depth]
      exact Nat.succ_le_succ (depthItems_le.mpr fun v mem => (each v mem).depth)
    · rw [Value.numbers] at h
      obtain ⟨v, mem, h⟩ := mem_numbersItems.mp h
      exact (each v mem).numbers m h

theorem fits_object {fields : List (String × Value)} {levels : Nat} :
    (object fields).Fits levels ↔ ∃ n, levels = n + 1 ∧ ∀ e ∈ fields, e.2.Fits n := by
  have same : (object fields).Fits levels ↔ (array (fields.map Prod.snd)).Fits levels := by
    have depth : (object fields).depth = (array (fields.map Prod.snd)).depth := by
      rw [Value.depth, Value.depth, depthFields_eq]
    have numbers : (object fields).numbers = (array (fields.map Prod.snd)).numbers := by
      rw [Value.numbers, Value.numbers, numbersFields_eq]
    exact ⟨fun h => ⟨depth ▸ h.depth, numbers ▸ h.numbers⟩, fun h => ⟨depth ▸ h.depth, numbers ▸ h.numbers⟩⟩
  simp only [same, fits_array, List.forall_mem_map]

theorem fits_number {n : Number} {levels : Nat} : (number n).Fits levels ↔ n.IsIndex := by
  constructor
  · intro fits
    exact fits.numbers n (by simp [Value.numbers])
  · intro isIndex
    exact ⟨Nat.zero_le _, by simpa [Value.numbers] using isIndex⟩

theorem Fits.mono {v : Value} {m n : Nat} (fits : v.Fits m) (le : m ≤ n) : v.Fits n :=
  ⟨Nat.le_trans fits.depth le, fits.numbers⟩

theorem Fits.items {items : List Value} {levels : Nat} (fits : (array items).Fits levels) :
    ∀ v ∈ items, v.Fits levels := by
  obtain ⟨n, rfl, each⟩ := fits_array.mp fits
  exact fun v mem => (each v mem).mono (Nat.le_succ n)

theorem Fits.fields {fields : List (String × Value)} {levels : Nat} (fits : (object fields).Fits levels) :
    ∀ e ∈ fields, e.2.Fits levels := by
  obtain ⟨n, rfl, each⟩ := fits_object.mp fits
  exact fun e mem => (each e mem).mono (Nat.le_succ n)

/-- The first character says that a value is here; only null starts with an `n`. -/
theorem write_first {v : Value} {levels : Nat} (fits : v.Fits levels) :
    ∃ c t, v.write = c :: t ∧ isBlank c = false ∧ c ≠ ']' ∧ (v ≠ .null → c ≠ 'n') := by
  match v with
  | .null => exact ⟨'n', _, rfl, by decide, by decide, fun h => absurd rfl h⟩
  | .boolean true => exact ⟨'t', _, rfl, by decide, by decide, fun _ => by decide⟩
  | .boolean false => exact ⟨'f', _, rfl, by decide, by decide, fun _ => by decide⟩
  | .text s => exact ⟨'"', _, rfl, by decide, by decide, fun _ => by decide⟩
  | .array [] | .array (_ :: _) => exact ⟨'[', _, rfl, by decide, by decide, fun _ => by decide⟩
  | .object [] | .object (_ :: _) => exact ⟨'{', _, rfl, by decide, by decide, fun _ => by decide⟩
  | .number n =>
    obtain ⟨k, -, rfl⟩ := fits_number.mp fits
    obtain ⟨c, digits, written, first, -⟩ := Numeral.writeNatural_cons k
    exact ⟨c, digits, written, isBlank_of_isDigit first, ne_of_isDigit first _ rfl, fun _ => ne_of_isDigit first _ rfl⟩

end Value

/-! The items of an array, and the fields of an object. -/

/-- What is still to come of an array: after its opening bracket, or after an item. -/
def remainingItems (first : Bool) (items : List Value) : List Char :=
  match first, items with
  | true, v :: rest => v.write ++ Value.writeItems rest
  | _, items => Value.writeItems items

theorem write_array (items : List Value) : (Value.array items).write = '[' :: remainingItems true items := by
  cases items <;> rfl

theorem nextItem_first {c : Char} {t : List Char} (visible : isBlank c = false) (notEnd : c ≠ ']') :
    nextItem true (c :: t) = .ok (.item (c :: t) (Nat.le_refl _)) := by
  unfold nextItem
  split
  · next none => cases (skipBlank_cons visible t).symm.trans none
  · next first =>
    cases (skipBlank_cons visible t).symm.trans first
    simp [notEnd]

theorem nextItem_later {c : Char} {t : List Char} (visible : isBlank c = false) (notEnd : c ≠ ']') :
    nextItem false (',' :: c :: t) = .ok (.item (c :: t) (Nat.le_succ _)) := by
  unfold nextItem
  split
  · next none => cases none
  · next comma =>
    cases (skipBlank_cons rfl (c :: t)).symm.trans comma
    simp only [Char.reduceEq, if_false, if_true, Bool.false_eq_true]
    split
    · next none => cases (skipBlank_cons visible t).symm.trans none
    · next first =>
      cases (skipBlank_cons visible t).symm.trans first
      simp [notEnd]

theorem nextItem_item {first : Bool} {v : Value} {levels : Nat} (fits : v.Fits levels) {items : List Value}
    {rest s : List Char} (text : s = remainingItems first (v :: items) ++ rest) :
    ∃ le, nextItem first s = .ok (.item (v.write ++ (Value.writeItems items ++ rest)) le) := by
  obtain ⟨c, t, written, visible, notEnd, -⟩ := Value.write_first fits
  rw [written]
  cases first with
  | true =>
    obtain rfl : s = c :: (t ++ (Value.writeItems items ++ rest)) := by simp [text, remainingItems, written]
    exact ⟨_, nextItem_first visible notEnd⟩
  | false =>
    obtain rfl : s = ',' :: c :: (t ++ (Value.writeItems items ++ rest)) := by
      simp [text, remainingItems, Value.writeItems, written]
    exact ⟨_, nextItem_later visible notEnd⟩

theorem delimited_writeItems (items : List Value) (rest : List Char) : Delimited (Value.writeItems items ++ rest) := by
  cases items with
  | nil => exact .inr (.inl rfl)
  | cons => exact .inl rfl

theorem delimited_writeFields (fields : List (String × Value)) (rest : List Char) :
    Delimited (Value.writeFields fields ++ rest) := by
  cases fields with
  | nil => exact .inr (.inr rfl)
  | cons => exact .inl rfl

/-- If each item is read as it is judged, so are all items. -/
theorem scanItems_write {item : Scan α} (check : Value → Except Error α) {levels : Nat} {rest : List Char}
    {items : List Value} (fits : ∀ v ∈ items, v.Fits levels)
    (each : ∀ v ∈ items, ∀ rest, Delimited rest → outcome (item (v.write ++ rest)) = (check v).map (·, rest))
    (whole : List Char) (taken : List α) (first : Bool) {s : List Char}
    (text : s = remainingItems first items ++ rest) (h : s.length ≤ whole.length) :
    outcome (scanItems item whole taken first s h) =
      (items.mapM check).map fun others => (taken.reverse ++ others, rest) := by
  induction items generalizing taken first s with
  | nil =>
    obtain rfl : s = ']' :: rest := by cases first <;> exact text
    have closed : nextItem first (']' :: rest) = .ok (.closed rest (Nat.lt_succ_self _)) := rfl
    rw [scanItems, closed]
    simp [outcome, Except.map, pure, Except.pure]
  | cons v items ih =>
    obtain ⟨fitsFirst, fitsOthers⟩ := List.forall_mem_cons.mp fits
    obtain ⟨eachFirst, eachOthers⟩ := List.forall_mem_cons.mp each
    obtain ⟨le, next⟩ := nextItem_item fitsFirst text
    have read := eachFirst (Value.writeItems items ++ rest) (delimited_writeItems items rest)
    rw [scanItems, next, List.mapM_cons]
    dsimp only
    cases judged : check v with
    | error e =>
      rw [judged] at read
      rw [outcome_eq_error.mp read]
      rfl
    | ok a =>
      rw [judged] at read
      obtain ⟨shorter, scanned⟩ := outcome_eq_ok.mp read
      rw [scanned]
      dsimp only
      rw [ih fitsOthers eachOthers (a :: taken) false (s := Value.writeItems items ++ rest) rfl]
      cases items.mapM check <;> simp [Except.map, bind, Except.bind, pure, Except.pure]

/-- What is still to come of an object: after its opening bracket, or after a field. -/
def remainingFields (first : Bool) (fields : List (String × Value)) : List Char :=
  match first, fields with
  | true, (name, v) :: rest => writeText name ++ ':' :: (v.write ++ Value.writeFields rest)
  | _, fields => Value.writeFields fields

theorem write_object (fields : List (String × Value)) :
    (Value.object fields).write = '{' :: remainingFields true fields := by
  match fields with
  | [] | _ :: _ => rfl

theorem nextKey_key {first : Bool} {name : String} {v : Value} {fields : List (String × Value)} {rest s : List Char}
    (text : s = remainingFields first ((name, v) :: fields) ++ rest) :
    ∃ shorter, nextKey first s =
      .ok (.key name (':' :: (v.write ++ (Value.writeFields fields ++ rest))) shorter) := by
  generalize after : ':' :: (v.write ++ (Value.writeFields fields ++ rest)) = t
  cases first with
  | true =>
    obtain rfl : s = '"' :: (name.toList.flatMap writeChar ++ '"' :: t) := by
      simp [text, remainingFields, ← after, writeText]
    exact ⟨_, scanText_bind name t _⟩
  | false =>
    obtain rfl : s = ',' :: '"' :: (name.toList.flatMap writeChar ++ '"' :: t) := by
      simp [text, remainingFields, Value.writeFields, ← after, writeText]
    exact ⟨_, scanText_bind name t _⟩

theorem outcome_afterColon (value : Scan α) (s : List Char) :
    outcome (afterColon value (':' :: s)) = outcome (value s) := by
  have colon : scanColon (':' :: s) = .ok ⟨(), s, Nat.lt_succ_self _⟩ := rfl
  unfold afterColon
  rw [colon]
  cases read : value s <;> simp [outcome, Except.map, bind, Except.bind, Taken.widen, read]

/-- If each field is read as it is judged, so are all fields. -/
theorem scanFields_write {field : σ → String → Scan σ} (judge : σ → String × Value → Except Error σ)
    {rest : List Char} {fields : List (String × Value)}
    (each : ∀ e ∈ fields, ∀ state rest, Delimited rest →
      outcome (field state e.1 (':' :: (e.2.write ++ rest))) = (judge state e).map (·, rest))
    (whole : List Char) (state : σ) (first : Bool) {s : List Char}
    (text : s = remainingFields first fields ++ rest) (h : s.length ≤ whole.length) :
    outcome (scanFields field whole state first s h) = (fields.foldlM judge state).map (·, rest) := by
  induction fields generalizing state first s with
  | nil =>
    obtain rfl : s = '}' :: rest := by cases first <;> exact text
    have closed : nextKey first ('}' :: rest) = .ok (.closed rest (Nat.lt_succ_self _)) := rfl
    rw [scanFields, closed]
    rfl
  | cons e fields ih =>
    obtain ⟨eachFirst, eachOthers⟩ := List.forall_mem_cons.mp each
    obtain ⟨shorter, next⟩ := nextKey_key text
    have read := eachFirst state (Value.writeFields fields ++ rest) (delimited_writeFields fields rest)
    rw [scanFields, next, List.foldlM_cons]
    dsimp only
    cases judged : judge state e with
    | error error =>
      rw [judged] at read
      rw [outcome_eq_error.mp read]
      rfl
    | ok gathered =>
      rw [judged] at read
      obtain ⟨shorter, scanned⟩ := outcome_eq_ok.mp read
      rw [scanned]
      exact ih eachOthers gathered false rfl _

/-! Values. -/

def Value.isScalar : Value → Bool
  | .array _ | .object _ => false
  | _ => true

theorem scanScalar_write {v : Value} (scalar : v.isScalar) {levels : Nat} (fits : v.Fits levels) {rest s : List Char}
    (after : Delimited rest) (text : s = v.write ++ rest) :
    ∃ shorter, scanScalar s = some (.ok ⟨v, rest, shorter⟩) := by
  match v with
  | .null =>
    subst text
    exact ⟨_, congrArg some (scanIdent_bind "ull".toList rest _)⟩
  | .boolean true =>
    subst text
    exact ⟨_, congrArg some (scanIdent_bind "rue".toList rest _)⟩
  | .boolean false =>
    subst text
    exact ⟨_, congrArg some (scanIdent_bind "alse".toList rest _)⟩
  | .text name =>
    obtain rfl : s = '"' :: (name.toList.flatMap writeChar ++ '"' :: rest) := text.trans (writeText_append name rest)
    exact ⟨_, congrArg some (scanText_bind name rest _)⟩
  | .number n =>
    obtain ⟨k, small, rfl⟩ := Value.fits_number.mp fits
    obtain ⟨c, t, rfl, first, shorter, read⟩ := scanNumber_writeNatural small after text
    have apart := ne_of_isDigit first
    refine ⟨shorter, ?_⟩
    simp only [scanScalar, if_neg (apart 'n' rfl), if_neg (apart 't' rfl), if_neg (apart 'f' rfl),
      if_neg (apart '-' rfl), if_pos first, read]
    rfl

theorem scanValueWith_scalar (inner : Option (Scan Value)) {v : Value} (scalar : v.isScalar) {levels : Nat}
    (fits : v.Fits levels) {rest : List Char} (after : Delimited rest) :
    outcome (scanValueWith inner (v.write ++ rest)) = .ok (v, rest) := by
  obtain ⟨c, t, written, visible, -⟩ := Value.write_first fits
  generalize text : v.write ++ rest = s
  obtain ⟨shorter, read⟩ := scanScalar_write scalar fits after text.symm
  obtain rfl : c :: (t ++ rest) = s := by rw [← text, written]; rfl
  rw [scanValueWith, onFirst_cons visible, read]
  rfl

theorem scanValueWith_array (inner : Scan Value) (t : List Char) :
    outcome (scanValueWith (some inner) ('[' :: t)) =
      (outcome (scanItems inner ('[' :: t) [] true t (Nat.le_succ _))).map (Prod.map Value.array id) := by
  rw [scanValueWith, onFirst_cons rfl, ← outcome_bind]
  rfl

theorem scanValueWith_object (inner : Scan Value) (t : List Char) :
    outcome (scanValueWith (some inner) ('{' :: t)) =
      (outcome (scanFields (fun done name u => (afterColon inner u).map (Taken.map fun v => (name, v) :: done))
        ('{' :: t) [] true t (Nat.le_succ _))).map (Prod.map (fun done => Value.object done.reverse) id) := by
  rw [scanValueWith, onFirst_cons rfl, ← outcome_bind]
  rfl

/-- The compact text of a value that fits is read as the value. -/
theorem scanValue_write {v : Value} {levels : Nat} (fits : v.Fits levels) {rest : List Char} (after : Delimited rest) :
    outcome (scanValue levels (v.write ++ rest)) = .ok (v, rest) := by
  -- by induction on the levels that are left, not on the value: its parts are given by lists
  induction levels generalizing v rest with
  | zero =>
    cases v with
    | array items =>
      obtain ⟨n, none, -⟩ := Value.fits_array.mp fits
      cases none
    | object fields =>
      obtain ⟨n, none, -⟩ := Value.fits_object.mp fits
      cases none
    | null | boolean | number | text => exact scanValueWith_scalar _ rfl fits after
  | succ levels ih =>
    cases v with
    | array items =>
      obtain ⟨n, same, each⟩ := Value.fits_array.mp fits
      cases same
      rw [write_array, List.cons_append, scanValue, scanValueWith_array]
      rw [scanItems_write pure each (fun v mem rest after => ih (each v mem) after) _ _ _ rfl]
      have all : items.mapM (m := Except Error) pure = pure items :=
        (List.mapM_pure (f := id)).trans (congrArg pure (List.map_id items))
      rw [all]
      rfl
    | object fields =>
      obtain ⟨n, same, each⟩ := Value.fits_object.mp fits
      cases same
      rw [write_object, List.cons_append, scanValue, scanValueWith_object]
      rw [scanFields_write (fun done e => pure (e :: done)) (fun e mem done rest after => ?_) _ _ _ rfl]
      · rw [List.foldlM_pure]
        simp [Except.map, pure, Except.pure]
      · rw [outcome_map, outcome_afterColon, ih (each e mem) after]
        rfl
    | null | boolean | number | text => exact scanValueWith_scalar _ rfl fits after

end Famix.Json
