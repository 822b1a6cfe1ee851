import FileSearch.Text.Digit
import FileSearch.Text.Quoted

/-!
Numerals: a non-negative integer written with ASCII digits only. A numeral is refused when it has
any other character, when it has more digits than are ever read, or when its value does not fit a
signed 64-bit integer, in this order.
-/

namespace FileSearch

/-- The largest value a numeral may have: the largest signed integer of 64 bits. -/
def maxNumeral : Nat := 0x7fffffffffffffff

/-- The largest number of digits that are read, leading zeros included. -/
def maxDigits : Nat := 4300

inductive NumeralError where
  | notDigits
  | tooManyDigits
  | outOfRange
  deriving DecidableEq, Repr

/-- The value of a string of digits, the most significant first. -/
def digitsValue (t : Text) : Nat := t.foldl (fun n c => 10 * n + (c.toNat - '0'.toNat)) 0

/-- Reads a numeral. -/
def readNumeral (t : Text) : Except NumeralError Nat :=
  if t.isEmpty || !t.all isAsciiDigit then .error .notDigits
  else if maxDigits < t.length then .error .tooManyDigits
  else if maxNumeral < digitsValue t then .error .outOfRange
  else .ok (digitsValue t)

/-- Decimal digits of a number. -/
def decimal (n : Nat) : Text := Nat.toDigits 10 n

/-- What is said of a text that is no numeral. -/
def NumeralError.message (t : Text) : NumeralError → Text
  | .notDigits => "not a non-negative integer: ".toList ++ quoted t
  | .tooManyDigits =>
    "Exceeds the limit (4300 digits) for integer string conversion: value has ".toList ++
      decimal t.length ++
      " digits; use sys.set_int_max_str_digits() to increase the limit".toList
  | .outOfRange => "value out of range: ".toList ++ t

theorem readNumeral_eq_ok_iff {t : Text} {n : Nat} :
    readNumeral t = .ok n ↔
      t ≠ [] ∧ (∀ c ∈ t, isAsciiDigit c) ∧ t.length ≤ maxDigits ∧ digitsValue t ≤ maxNumeral ∧
        n = digitsValue t := by
  simp only [readNumeral]
  split <;> rename_i h1
  · simp only [reduceCtorEq, false_iff]
    rintro ⟨h, hd, -⟩
    simp only [Bool.or_eq_true, List.isEmpty_iff, h, false_or, Bool.not_eq_true',
      List.all_eq_false] at h1
    obtain ⟨c, hc, hn⟩ := h1
    exact hn (hd c hc)
  · split <;> rename_i h2
    · simp only [reduceCtorEq, false_iff]
      omega
    · split <;> rename_i h3
      · simp only [reduceCtorEq, false_iff]
        omega
      · simp only [Except.ok.injEq]
        simp only [Bool.or_eq_true, List.isEmpty_iff, Bool.not_eq_true', List.all_eq_false, not_or,
          not_exists, not_and, Bool.not_eq_true] at h1
        constructor
        · rintro rfl
          exact ⟨h1.1, fun c hc => by simpa using h1.2 c hc, by omega, by omega, rfl⟩
        · rintro ⟨-, -, -, -, rfl⟩
          rfl

end FileSearch
