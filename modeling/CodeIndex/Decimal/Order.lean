/-!
# A total order on floats

Numbers in their usual order, with negative zero before zero and the ones that are no
numbers at the ends.
-/

namespace CodeIndex.Decimal

/-- The place of a float in the total order. -/
def place (x : Float) : Int :=
  let bits := x.toBits.toNat
  if bits < Nat.pow 2 63 then bits else (Nat.pow 2 63 : Int) - 1 - bits

end CodeIndex.Decimal
