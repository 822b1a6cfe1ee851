import FileSearch.Comparison
import FileSearch.Numeral
import FileSearch.Text.LowerCase

/-!
Sizes and ages in an expression. A size is an optional sign, a numeral and an optional unit letter
of either case; the numeral is judged before the unit. An age is an optional sign and a numeral.
-/

namespace FileSearch

inductive SizeError where
  | badNumber
  | badUnit
  deriving DecidableEq, Repr

def SizeError.message : SizeError → Text
  | .badNumber => "invalid -size value".toList
  | .badUnit => "invalid -size unit".toList

/-- Bytes in one unit; no letter means bytes. -/
def unitBytes : Text → Option Nat
  | [] => some 1
  | ['c'] => some 1
  | ['b'] => some 512
  | ['k'] => some 1024
  | ['m'] => some (1024 * 1024)
  | ['g'] => some (1024 * 1024 * 1024)
  | _ => none

/-- Splits a last character that is not a digit of any script off a number. -/
def splitUnit (t : Text) : Text × Text :=
  match t.getLast? with
  | none => ([], [])
  | some c => if isDigit c then (t, []) else (t.dropLast, [c])

/-- Reads a size with its sign. -/
def readSize (t : Text) : Except SizeError Comparison :=
  let (op, rest) := splitCompare t
  let (number, unit) := splitUnit rest
  match readNumeral number with
  | .error _ => .error .badNumber
  | .ok count =>
    match unitBytes (lowerCase unit) with
    | none => .error .badUnit
    | some bytes => .ok ⟨op, count * bytes⟩

/-- Reads an age in whole days with its sign; `none` when the number is no numeral. -/
def readAge (t : Text) : Option Comparison :=
  let (op, rest) := splitCompare t
  match readNumeral rest with
  | .error _ => none
  | .ok days => some ⟨op, days⟩

end FileSearch
