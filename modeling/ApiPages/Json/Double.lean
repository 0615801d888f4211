import ApiPages.Json.Value

/-!
Doubles: the numbers `mantissa · 2 ^ exponent` with a mantissa below `2 ^ 53` and an exponent from
-1074 to 971. A decimal stands for the double nearest to it, and a double is written with the fewest
digits that stand for it.
-/
namespace ApiPages

def roundDiv (num den : Nat) : Nat :=
  let q := num / den
  let twice := 2 * (num % den)
  if den < twice ∨ (twice = den ∧ q % 2 = 1) then q + 1 else q

def scaled (base num den : Nat) (power : Int) : Nat × Nat :=
  if 0 ≤ power then (num * Nat.pow base power.toNat, den)
  else (num, den * Nat.pow base (-power).toNat)

structure Double where
  mantissa : Nat
  exponent : Int
  deriving DecidableEq, Repr

namespace Double

def zero : Double := ⟨0, 0⟩

def fullMantissa : Nat := 4503599627370496

def leastExponent : Int := -1074

def exponentOf (num den : Nat) : Int :=
  let guess : Int := (Nat.log2 num : Int) - Nat.log2 den - 52
  let (a, b) := scaled 2 num den (-guess)
  max (if a < fullMantissa * b then guess - 1 else guess) leastExponent

def nearest? (num den : Nat) : Option Double :=
  if num = 0 then some zero
  else
    let e := exponentOf num den
    let (a, b) := scaled 2 num den (-e)
    let m := roundDiv a b
    let d : Double := if m = 2 * fullMantissa then ⟨fullMantissa, e + 1⟩ else ⟨m, e⟩
    if d.mantissa = 0 then some zero else if 971 < d.exponent then none else some d

/-- Whether a number stands for the double. The numbers that do reach half way to its neighbours,
and just half way if the mantissa is even; the lower neighbour is nearer at a power of two. -/
def covers (d : Double) (num den : Nat) : Bool :=
  let (a, b) := scaled 2 num den (2 - d.exponent)
  let low := if d.mantissa = fullMantissa ∧ leastExponent < d.exponent then 1 else 2
  if d.mantissa % 2 = 0 then (4 * d.mantissa - low) * b ≤ a && a ≤ (4 * d.mantissa + 2) * b
  else (4 * d.mantissa - low) * b < a && a < (4 * d.mantissa + 2) * b

def onGrid? (d : Double) (power : Int) : Option Nat :=
  let (num, den) := scaled 2 d.mantissa 1 d.exponent
  let (a, b) := scaled 10 num den (-power)
  let n := roundDiv a b
  let stands (n : Nat) : Bool :=
    let (x, y) := scaled 10 n 1 power
    n != 0 && d.covers x y
  if stands n then some n else if stands (a / b) then some (a / b)
  else if stands (a / b + 1) then some (a / b + 1) else none

def digitsFrom (d : Double) : Nat → Int → Nat × Int
  | 0, power => (0, power)
  | n + 1, power =>
    match d.onGrid? power with
    | some digits => (digits, power)
    | none => digitsFrom d n (power - 1)

def shortest (negative : Bool) (d : Double) : Number :=
  if d.mantissa = 0 then .decimal negative 0 0
  else
    let size : Int := (Nat.log2 d.mantissa : Int) + d.exponent
    let (digits, power) := d.digitsFrom 30 (size * 30103 / 100000 + 2)
    Number.reduce negative 20 digits power

end Double

namespace Number

/-- The size of a number as a double, if it has one. A number with more than 310 places before its
point is too large for that, and one that begins 400 places behind it counts as zero. -/
def size? : Number → Option Double
  | .whole value => Double.nearest? value.natAbs 1
  | .decimal _ digits exponent =>
    let point : Int := (Nat.toDigits 10 digits).length + exponent
    if digits = 0 ∨ point < -400 then some Double.zero
    else if 310 < point then none
    else
      let (num, den) := scaled 10 digits 1 exponent
      Double.nearest? num den

def isNegative : Number → Bool
  | .whole value => value < 0
  | .decimal negative _ _ => negative

def rounded (n : Number) : Number :=
  match n.size? with
  | some d => d.shortest n.isNegative
  | none => n

def sameValue (a b : Number) : Bool :=
  a.size? == b.size? && (a.isNegative == b.isNegative || a.size? == some Double.zero)

end Number

end ApiPages
