/-!
Age in whole days. The elapsed seconds are a double, never negative; they are divided by the seconds
of a day and rounded down. The remainder is taken exactly, the subtraction and the division round to
the nearest double, and an elapsed time that is infinite or not a number has no age.
-/

namespace FileSearch

def secondsPerDay : Nat := 86400

/-- The mantissa and the exponent of two of a finite double's magnitude. -/
def magnitude (x : Float) : Nat × Int :=
  let bits : Nat := x.toBits.toNat
  let exponent : Nat := (bits >>> 52) % 2048
  let fraction : Nat := bits % (1 <<< 52)
  if exponent = 0 then (fraction, -1074) else (fraction + (1 <<< 52), (exponent : Int) - 1075)

/-- The whole part of a finite double's magnitude. -/
def wholePart (x : Float) : Nat :=
  match magnitude x with
  | (m, .ofNat e) => m <<< e
  | (m, .negSucc e) => m >>> (e + 1)

/-- The remainder of a finite double by a whole number, which is a double again; a double that is
not negative and below the number is its own remainder. -/
def remainder (x : Float) (d : Nat) : Float :=
  if x < Float.ofNat d then x
  else
    match magnitude x with
    | (m, .ofNat e) => Float.ofNat ((m <<< e) % d)
    | (m, .negSucc e) => Float.ofNat (m % (d <<< (e + 1))) / Float.ofNat (1 <<< (e + 1))

/-- Seconds from one time to another; a time that lies ahead counts as now. -/
def elapsed (modified now : Float) : Float :=
  let x := now - modified
  if x < 0 then 0 else x

/-- Whole days from one time to another. -/
def ageInDays (modified now : Float) : Option Nat :=
  let x := elapsed modified now
  if x.isNaN || x.isInf then none
  else
    let days := (x - remainder x secondsPerDay) / Float.ofNat secondsPerDay
    let whole := wholePart days
    some (if days - Float.ofNat whole > 0.5 then whole + 1 else whole)

example : ageInDays 1000 87399 = some 0 := by decide +kernel

example : ageInDays 1000 87400 = some 1 := by decide +kernel

example : ageInDays 0 1e22 = some 115740740740740736 := by decide +kernel

end FileSearch
