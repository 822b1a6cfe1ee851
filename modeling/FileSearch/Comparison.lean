/-!
A number in an expression is compared with an actual one in one of three ways, which a leading sign
selects: `+` asks for more, `-` for less, no sign for exactly as much.
Main statement: for every reference value, exactly one of the three ways accepts an actual number.
-/

namespace FileSearch

inductive CompareOp where
  | exact | less | greater
  deriving DecidableEq, Repr

/-- A way of comparing and the reference value: bytes for a size, whole days for an age. -/
structure Comparison where
  op : CompareOp
  value : Nat
  deriving DecidableEq, Repr

def Comparison.test (c : Comparison) (actual : Int) : Bool :=
  match c.op with
  | .exact => actual = c.value
  | .less => actual < c.value
  | .greater => c.value < actual

/-- Splits the sign off a number. -/
def splitCompare : List Char → CompareOp × List Char
  | '+' :: r => (.greater, r)
  | '-' :: r => (.less, r)
  | t => (.exact, t)

/-- Which way of comparing accepts an actual number. -/
theorem Comparison.test_iff (op : CompareOp) (value : Nat) (actual : Int) :
    Comparison.test ⟨op, value⟩ actual ↔
      op = if actual < value then .less else if actual = value then .exact else .greater := by
  cases op <;> simp only [Comparison.test, decide_eq_true_eq] <;> split <;> try split
  all_goals simp
  all_goals omega

end FileSearch
