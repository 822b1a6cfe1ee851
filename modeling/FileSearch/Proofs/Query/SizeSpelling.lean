import FileSearch.Proofs.Query.Numbers
import Mathlib.Data.List.Induction
import Mathlib.Data.Nat.Digits.Defs

/-!
How a size is spelled: an optional sign, a numeral and an optional letter for the unit. The reader
takes the sign off, then the last character if it is a digit in no script, and looks at the numeral
before the unit. What it takes for the unit is never a part of the numeral, since no letter of a
unit is a digit.
Main statement: a size is read exactly if it is spelled in this way, which is then the only one; it
is refused for its unit if only the last character is wrong, and for its number in all other cases.
-/

namespace FileSearch

/-! ### Signs -/

/-- The sign that selects a way of comparing. -/
def CompareOp.sign : CompareOp → Text
  | .exact => []
  | .less => ['-']
  | .greater => ['+']

/-- The value of an operator begins with no sign. -/
def IsUnsigned (value : Text) : Prop := value.head? ≠ some '+' ∧ value.head? ≠ some '-'

theorem splitCompare_sign {value : Text} (h : IsUnsigned value) (op : CompareOp) :
    splitCompare (op.sign ++ value) = (op, value) := by
  cases op with
  | less | greater => rfl
  | exact =>
    obtain ⟨hplus, hminus⟩ := h
    cases value with
    | nil => rfl
    | cons c r =>
      rw [List.head?_cons, ne_eq, Option.some.injEq] at hplus hminus
      rw [CompareOp.sign, List.nil_append]
      unfold splitCompare
      split
      · rename_i heq
        exact absurd (List.cons_eq_cons.1 heq).1 hplus
      · rename_i heq
        exact absurd (List.cons_eq_cons.1 heq).1 hminus
      · rfl

/-- A sign says how to compare, and nothing else. -/
theorem readSize_sign {value : Text} (h : IsUnsigned value) (op : CompareOp) :
    readSize (op.sign ++ value) = (readSize value).map fun c => ⟨op, c.value⟩ := by
  have hexact : splitCompare value = (.exact, value) := splitCompare_sign h .exact
  simp only [readSize, splitCompare_sign h, hexact]
  cases readNumeral (splitUnit value).1 with
  | error e => rfl
  | ok count => cases unitBytes (lowerCase (splitUnit value).2) <;> rfl

theorem readAge_sign {value : Text} (h : IsUnsigned value) (op : CompareOp) :
    readAge (op.sign ++ value) = (readAge value).map fun c => ⟨op, c.value⟩ := by
  have hexact : splitCompare value = (.exact, value) := splitCompare_sign h .exact
  simp only [readAge, splitCompare_sign h, hexact]
  cases readNumeral value <;> rfl

/-! ### Numerals -/

/-- A number as it is written: some ASCII digits, not too many, with a value that fits a signed
64-bit integer. -/
structure IsNumeral (digits : Text) (n : Nat) : Prop where
  ne_nil : digits ≠ []
  ascii : ∀ c ∈ digits, '0' ≤ c ∧ c ≤ '9'
  length_le : digits.length ≤ 4300
  value_eq : n = Nat.ofDigits 10 (digits.reverse.map fun c => c.toNat - '0'.toNat)
  value_le : n ≤ 2 ^ 63 - 1

theorem digitsValue_eq_ofDigits (t : Text) :
    digitsValue t = Nat.ofDigits 10 (t.reverse.map fun c => c.toNat - '0'.toNat) := by
  induction t using List.reverseRecOn with
  | nil => rfl
  | append_singleton t c ih =>
    have hlast : digitsValue (t ++ [c]) = 10 * digitsValue t + (c.toNat - '0'.toNat) := by
      rw [digitsValue, List.foldl_append]
      rfl
    rw [hlast, ih, List.reverse_append, List.reverse_singleton, List.singleton_append,
      List.map_cons, Nat.ofDigits_cons]
    exact Nat.add_comm _ _

theorem readNumeral_eq_ok_iff_isNumeral {t : Text} {n : Nat} :
    readNumeral t = .ok n ↔ IsNumeral t n := by
  have hdigits : (∀ c ∈ t, isAsciiDigit c) ↔ ∀ c ∈ t, '0' ≤ c ∧ c ≤ '9' := by
    simp [isAsciiDigit]
  rw [readNumeral_eq_ok_iff, hdigits, digitsValue_eq_ofDigits]
  constructor
  · rintro ⟨hne, hascii, hlength, hle, rfl⟩
    exact ⟨hne, hascii, hlength, rfl, hle⟩
  · rintro ⟨hne, hascii, hlength, rfl, hle⟩
    exact ⟨hne, hascii, hlength, hle, rfl⟩

/-! ### Units -/

/-- The letters of the units and how many bytes they stand for. -/
def sizeUnits : List (Char × Nat) :=
  [('c', 1), ('b', 512), ('k', 1024), ('m', 1024 * 1024), ('g', 1024 * 1024 * 1024)]

/-- No unit stands for bytes; a letter may be of either case. -/
inductive SpellsUnit : Text → Nat → Prop
  | none : SpellsUnit [] 1
  | letter {x l : Char} {bytes : Nat} : lowerCase [x] = [l] → (l, bytes) ∈ sizeUnits →
      SpellsUnit [x] bytes

section Units

variable {x l : Char} {unit : Text} {bytes : Nat}

theorem unitBytes_eq_some_iff :
    unitBytes unit = some bytes ↔
      unit = [] ∧ bytes = 1 ∨ ∃ l, unit = [l] ∧ (l, bytes) ∈ sizeUnits := by
  constructor
  · intro h
    unfold unitBytes at h
    split at h <;> cases h <;> simp [sizeUnits]
  · rintro (⟨rfl, rfl⟩ | ⟨l, rfl, hl⟩)
    · rfl
    · simp only [sizeUnits, List.mem_cons, Prod.mk.injEq, List.not_mem_nil, or_false] at hl
      rcases hl with ⟨rfl, rfl⟩ | ⟨rfl, rfl⟩ | ⟨rfl, rfl⟩ | ⟨rfl, rfl⟩ | ⟨rfl, rfl⟩ <;> rfl

/-- One character alone is no end of a word. -/
theorem lowerCase_singleton (x : Char) :
    lowerCase [x] =
      if x = 'İ' then ['i', '\u0307'] else if x = 'Σ' then ['σ'] else [lowerChar x] := by
  simp [lowerCase, lowerAfter, lowerIn, startsCased]

theorem unitBytes_lowerCase_iff :
    unitBytes (lowerCase [x]) = some bytes ↔ SpellsUnit [x] bytes := by
  have hne : lowerCase [x] ≠ [] := by
    rw [lowerCase_singleton]
    split
    · simp
    · split <;> simp
  rw [unitBytes_eq_some_iff]
  constructor
  · rintro (⟨hnil, -⟩ | ⟨l, hl, hmem⟩)
    · exact absurd hnil hne
    · exact .letter hl hmem
  · rintro (_ | ⟨hl, hmem⟩)
    exact .inr ⟨_, hl, hmem⟩

/-- Digits of any script have no case. -/
theorem lowerChar_of_isDigit (h : isDigit x) : lowerChar x = x := by
  have hapart : ∀ r ∈ caseRuns, digitRanges.all fun d => d.2 < r.first || r.last < d.1 := by
    decide +kernel
  unfold lowerChar
  cases hrun : caseRuns.find? (·.contains x.toNat) with
  | none => rfl
  | some r =>
    have hcontains := List.find?_some hrun
    obtain ⟨d, hd, hx⟩ := List.any_eq_true.1 h
    have hdisjoint := List.all_eq_true.1 (hapart r (List.mem_of_find?_eq_some hrun)) d hd
    simp only [CaseRun.contains, Bool.and_eq_true, Bool.or_eq_true, decide_eq_true_eq] at *
    omega

/-- A digit of any script is no letter of a unit. -/
theorem SpellsUnit.isDigit_eq_false (h : SpellsUnit [x] bytes) : isDigit x = false := by
  obtain _ | @⟨_, l, _, hl, hmem⟩ := h
  have hletters : sizeUnits.all fun u => !isDigit u.1 := by decide
  by_contra hdigit
  rw [Bool.not_eq_false] at hdigit
  have hsame : lowerCase [x] = [x] := by
    have hdotted : x ≠ 'İ' := by
      rintro rfl
      exact absurd hdigit (by decide)
    have hsigma : x ≠ 'Σ' := by
      rintro rfl
      exact absurd hdigit (by decide)
    rw [lowerCase_singleton, if_neg hdotted, if_neg hsigma, lowerChar_of_isDigit hdigit]
  obtain rfl := List.singleton_inj.1 (hl.symm.trans hsame)
  have hno := List.all_eq_true.1 hletters _ hmem
  simp [hdigit] at hno

theorem unitBytes_lowerCase_of_spellsUnit (h : SpellsUnit unit bytes) :
    unitBytes (lowerCase unit) = some bytes := by
  cases h with
  | none => rfl
  | letter hl hmem => exact unitBytes_lowerCase_iff.2 (.letter hl hmem)

end Units

/-! ### Sizes -/

/-- The text is a sign, a numeral and a unit. -/
structure SpellsSize (text : Text) (op : CompareOp) (digits unit : Text) (n bytes : Nat) :
    Prop where
  text_eq : text = op.sign ++ (digits ++ unit)
  number : IsNumeral digits n
  unit : SpellsUnit unit bytes

/-- The text is a sign, a numeral and a character that is neither a digit nor a unit. -/
structure SpellsWrongUnit (text : Text) (op : CompareOp) (digits : Text) (n : Nat) (x : Char) :
    Prop where
  text_eq : text = op.sign ++ (digits ++ [x])
  number : IsNumeral digits n
  notDigit : isDigit x = false
  notUnit : ∀ bytes, ¬ SpellsUnit [x] bytes

section Sizes

variable {text t digits unit : Text} {op : CompareOp} {n bytes : Nat} {x : Char}

theorem sign_splitCompare (t : Text) : (splitCompare t).1.sign ++ (splitCompare t).2 = t := by
  unfold splitCompare
  split <;> rfl

theorem splitUnit_concat (t : Text) (x : Char) :
    splitUnit (t ++ [x]) = if isDigit x then (t ++ [x], []) else (t, [x]) := by
  rw [splitUnit, List.getLast?_concat, List.dropLast_concat]

theorem splitUnit_append_eq (t : Text) : (splitUnit t).1 ++ (splitUnit t).2 = t := by
  induction t using List.reverseRecOn with
  | nil => rfl
  | append_singleton t x _ =>
    rw [splitUnit_concat]
    split
    · exact List.append_nil _
    · rfl

/-- What is split off is nothing or one character. -/
theorem splitUnit_snd (t : Text) :
    (splitUnit t).2 = [] ∨ ∃ x, (splitUnit t).2 = [x] ∧ isDigit x = false := by
  induction t using List.reverseRecOn with
  | nil => exact .inl rfl
  | append_singleton t x _ =>
    rw [splitUnit_concat]
    split
    · exact .inl rfl
    · rename_i hx
      exact .inr ⟨x, rfl, by simpa using hx⟩

theorem IsNumeral.splitUnit_eq (h : IsNumeral digits n) : splitUnit digits = (digits, []) := by
  obtain ⟨t, x, hdigits⟩ := (List.eq_nil_or_concat digits).resolve_left h.ne_nil
  rw [List.concat_eq_append] at hdigits
  subst hdigits
  have hascii : isAsciiDigit x := by
    simpa [isAsciiDigit] using h.ascii x (List.mem_append_right t (.head _))
  rw [splitUnit_concat, if_pos (isDigit_of_isAsciiDigit hascii)]

/-- A numeral begins with a digit, which is no sign. -/
theorem IsNumeral.isUnsigned (h : IsNumeral digits n) (unit : Text) :
    IsUnsigned (digits ++ unit) := by
  obtain ⟨c, r, rfl⟩ := List.exists_cons_of_ne_nil h.ne_nil
  have hc := h.ascii c (.head r)
  constructor
  · rintro ⟨rfl⟩
    exact absurd hc (by decide)
  · rintro ⟨rfl⟩
    exact absurd hc (by decide)

/-- The reader takes the text apart as it is spelled. -/
theorem splits_of_spells (hnumber : IsNumeral digits n)
    (hunit : unit = [] ∨ ∃ x, unit = [x] ∧ isDigit x = false)
    (htext : text = op.sign ++ (digits ++ unit)) :
    splitCompare text = (op, digits ++ unit) ∧ splitUnit (digits ++ unit) = (digits, unit) := by
  refine ⟨by rw [htext, splitCompare_sign (hnumber.isUnsigned unit)], ?_⟩
  rcases hunit with rfl | ⟨x, rfl, hx⟩
  · rw [List.append_nil, hnumber.splitUnit_eq]
  · rw [splitUnit_concat, hx]
    rfl

/-- The text is what the reader takes it apart into. -/
theorem eq_append_splits (text : Text) :
    text = (splitCompare text).1.sign ++
      ((splitUnit (splitCompare text).2).1 ++ (splitUnit (splitCompare text).2).2) := by
  rw [splitUnit_append_eq, sign_splitCompare]

theorem spellsSize_iff :
    SpellsSize text op digits unit n bytes ↔
      op = (splitCompare text).1 ∧ digits = (splitUnit (splitCompare text).2).1 ∧
        unit = (splitUnit (splitCompare text).2).2 ∧ SizeParts text n bytes := by
  constructor
  · rintro ⟨htext, hnumber, hunit⟩
    have hlast : unit = [] ∨ ∃ x, unit = [x] ∧ isDigit x = false := by
      cases hunit with
      | none => exact .inl rfl
      | letter hl hmem => exact .inr ⟨_, rfl, (SpellsUnit.letter hl hmem).isDigit_eq_false⟩
    obtain ⟨hsign, hparts⟩ := splits_of_spells hnumber hlast htext
    refine ⟨by rw [hsign], by rw [hsign, hparts], by rw [hsign, hparts], ?_, ?_⟩
    · rw [hsign, hparts]
      exact readNumeral_eq_ok_iff_isNumeral.2 hnumber
    · rw [hsign, hparts]
      exact unitBytes_lowerCase_of_spellsUnit hunit
  · rintro ⟨rfl, rfl, rfl, hnumber, hbytes⟩
    refine ⟨eq_append_splits text, readNumeral_eq_ok_iff_isNumeral.1 hnumber, ?_⟩
    rcases splitUnit_snd (splitCompare text).2 with hnil | ⟨x, hx, -⟩
    · rw [hnil] at hbytes ⊢
      obtain rfl : 1 = bytes := Option.some.inj hbytes
      exact .none
    · rw [hx] at hbytes ⊢
      exact unitBytes_lowerCase_iff.1 hbytes

theorem readSize_eq_badUnit_iff :
    readSize text = .error .badUnit ↔ ∃ op digits n x, SpellsWrongUnit text op digits n x := by
  constructor
  · intro h
    unfold readSize at h
    cases hcount : readNumeral (splitUnit (splitCompare text).2).1 with
    | error e => simp [hcount] at h
    | ok n =>
      cases hbytes : unitBytes (lowerCase (splitUnit (splitCompare text).2).2) with
      | some bytes => simp [hcount, hbytes] at h
      | none =>
        rcases splitUnit_snd (splitCompare text).2 with hnil | ⟨x, hx, hdigit⟩
        · rw [hnil] at hbytes
          cases hbytes
        · refine ⟨(splitCompare text).1, _, n, x, ?_, readNumeral_eq_ok_iff_isNumeral.1 hcount,
            hdigit, fun bytes hspells => ?_⟩
          · rw [← hx]
            exact eq_append_splits text
          · rw [hx, unitBytes_lowerCase_iff.2 hspells] at hbytes
            cases hbytes
  · rintro ⟨op, digits, n, x, h⟩
    obtain ⟨hsign, hparts⟩ := splits_of_spells h.number (.inr ⟨x, rfl, h.notDigit⟩) h.text_eq
    have hnone : unitBytes (lowerCase [x]) = none := by
      rw [Option.eq_none_iff_forall_ne_some]
      exact fun bytes hbytes => h.notUnit bytes (unitBytes_lowerCase_iff.1 hbytes)
    simp only [readSize, hsign, hparts, readNumeral_eq_ok_iff_isNumeral.2 h.number, hnone]

theorem readSize_eq_ok_iff_spells {c : Comparison} :
    readSize text = .ok c ↔ ∃ op digits unit n bytes,
      SpellsSize text op digits unit n bytes ∧ c = ⟨op, n * bytes⟩ := by
  rw [readSize_eq_ok_iff]
  constructor
  · rintro ⟨n, bytes, hparts, rfl⟩
    exact ⟨_, _, _, n, bytes, spellsSize_iff.2 ⟨rfl, rfl, rfl, hparts⟩, rfl⟩
  · rintro ⟨op, digits, unit, n, bytes, hspells, rfl⟩
    obtain ⟨rfl, -, -, hparts⟩ := spellsSize_iff.1 hspells
    exact ⟨n, bytes, hparts, rfl⟩

theorem SpellsSize.unique {op' : CompareOp} {digits' unit' : Text} {n' bytes' : Nat}
    (h : SpellsSize text op digits unit n bytes)
    (h' : SpellsSize text op' digits' unit' n' bytes') :
    op = op' ∧ digits = digits' ∧ unit = unit' ∧ n = n' ∧ bytes = bytes' := by
  obtain ⟨rfl, rfl, rfl, hparts⟩ := spellsSize_iff.1 h
  obtain ⟨rfl, rfl, rfl, hparts'⟩ := spellsSize_iff.1 h'
  exact ⟨rfl, rfl, rfl, Except.ok.inj (hparts.count.symm.trans hparts'.count),
    Option.some.inj (hparts.bytes.symm.trans hparts'.bytes)⟩

/-- A text is read as a size if and only if it is a sign, a numeral and a unit, and the size is the
numeral times the bytes of the unit; no text is spelled so in two ways. It is refused for its unit
if and only if it is a sign, a numeral and a character that is neither a digit of any script nor a
unit, and for its number in all other cases. -/
theorem readSize_by_spelling (text : Text) :
    (∀ c, readSize text = .ok c ↔ ∃ op digits unit n bytes,
      SpellsSize text op digits unit n bytes ∧ c = ⟨op, n * bytes⟩) ∧
    (∀ op digits unit n bytes op' digits' unit' n' bytes',
      SpellsSize text op digits unit n bytes → SpellsSize text op' digits' unit' n' bytes' →
        op = op' ∧ digits = digits' ∧ unit = unit' ∧ n = n' ∧ bytes = bytes') ∧
    ((∃ e, readSize text = .error e ∧ e.message = "invalid -size unit".toList) ↔
      ∃ op digits n x, SpellsWrongUnit text op digits n x) ∧
    ((∃ e, readSize text = .error e ∧ e.message = "invalid -size value".toList) ↔
      (¬ ∃ op digits unit n bytes, SpellsSize text op digits unit n bytes) ∧
        ¬ ∃ op digits n x, SpellsWrongUnit text op digits n x) := by
  have hok : (∃ c, readSize text = .ok c) ↔
      ∃ op digits unit n bytes, SpellsSize text op digits unit n bytes := by
    simp only [readSize_eq_ok_iff_spells]
    constructor
    · rintro ⟨c, op, digits, unit, n, bytes, hspells, -⟩
      exact ⟨op, digits, unit, n, bytes, hspells⟩
    · rintro ⟨op, digits, unit, n, bytes, hspells⟩
      exact ⟨_, op, digits, unit, n, bytes, hspells, rfl⟩
  have hmessage (e : SizeError) :
      (e.message = "invalid -size unit".toList ↔ e = .badUnit) ∧
        (e.message = "invalid -size value".toList ↔ e = .badNumber) := by
    cases e <;> decide
  refine ⟨fun c => readSize_eq_ok_iff_spells, fun _ _ _ _ _ _ _ _ _ _ h h' => h.unique h', ?_, ?_⟩
  · simp only [hmessage, exists_eq_right]
    exact readSize_eq_badUnit_iff
  · simp only [hmessage, exists_eq_right, ← hok, ← readSize_eq_badUnit_iff]
    rcases readSize text with (_ | _) | c <;> simp

/-- Leading zeros, and the sign for kelvin, whose small letter is the unit of kibibytes. -/
theorem readSize_by_spelling_kelvin :
    SpellsSize ['+', '0', '0', '7', '\u212a'] .greater ['0', '0', '7'] ['\u212a'] 7 1024 ∧
      readSize ['+', '0', '0', '7', '\u212a'] = .ok ⟨.greater, 7168⟩ ∧
      ∀ op digits unit n bytes,
        SpellsSize ['+', '0', '0', '7', '\u212a'] op digits unit n bytes →
          digits = ['0', '0', '7'] ∧ unit = ['\u212a'] := by
  obtain ⟨hok, hunique, -⟩ := readSize_by_spelling ['+', '0', '0', '7', '\u212a']
  have hspells : SpellsSize ['+', '0', '0', '7', '\u212a'] .greater ['0', '0', '7'] ['\u212a'] 7
      1024 := spellsSize_iff.2 ⟨rfl, rfl, rfl, rfl, rfl⟩
  refine ⟨hspells, (hok _).2 ⟨_, _, _, _, _, hspells, rfl⟩, ?_⟩
  intro op digits unit n bytes h
  obtain ⟨-, hdigits, hunit, -⟩ := hunique _ _ _ _ _ _ _ _ _ _ h hspells
  exact ⟨hdigits, hunit⟩

end Sizes

end FileSearch
