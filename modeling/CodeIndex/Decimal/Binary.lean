/-!
# The exact value of a binary floating-point number

A finite number is an integer times a power of two. Everything that is printed about it
follows from that integer and that power, in exact arithmetic.
-/

namespace CodeIndex.Decimal

/-- The magnitude `mantissa * 2 ^ (power - 1074)` of a finite number. -/
structure Binary where
  negative : Bool
  mantissa : Nat
  power : Nat
  deriving Repr, DecidableEq

/-- A floating-point number by class. -/
inductive Value where
  | nan
  | infinite (negative : Bool)
  | finite (b : Binary)
  deriving Repr, DecidableEq

/-- Reads the sign, exponent and fraction fields of the 64-bit format. -/
def Value.ofBits (bits : Nat) : Value :=
  let negative := bits / Nat.pow 2 63 % 2 == 1
  let exponent := bits / Nat.pow 2 52 % Nat.pow 2 11
  let fraction := bits % Nat.pow 2 52
  if exponent == 2047 then
    if fraction == 0 then .infinite negative else .nan
  else if exponent == 0 then .finite ⟨negative, fraction, 0⟩
  else .finite ⟨negative, fraction + Nat.pow 2 52, exponent - 1⟩

def Value.ofFloat (x : Float) : Value :=
  .ofBits x.toBits.toNat

/-- The magnitude as a fraction with the denominator `2 ^ 1074`. -/
def Binary.scaled (b : Binary) : Nat :=
  b.mantissa * Nat.pow 2 b.power

/-- The denominator of every magnitude. -/
def unit : Nat :=
  Nat.pow 2 1074

/-- The whole number of at most 53 bits, up to zeros at the end, that is nearest to `n`; of
two the one whose last bit is zero. -/
def nearestWhole (n : Nat) : Nat :=
  let step := Nat.pow 2 (n.log2 - 52)
  let down := n / step
  let rest := n % step
  let goesUp := step < 2 * rest || (step == 2 * rest && down % 2 == 1)
  (if goesUp then down + 1 else down) * step

/-- The same for a number with a sign. -/
def nearestInt (n : Int) : Int :=
  if n < 0 then -(nearestWhole n.natAbs : Int) else nearestWhole n.natAbs

/-- The decimal digits of a number, at least `width` of them. -/
def digitsOf (width n : Nat) : List Char :=
  let ds := Nat.toDigits 10 n
  List.replicate (width - ds.length) '0' ++ ds

end CodeIndex.Decimal
