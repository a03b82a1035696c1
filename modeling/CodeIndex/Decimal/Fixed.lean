import CodeIndex.Decimal.Binary
/-!
# Numbers with a fixed count of decimals

The exact value is rounded once; a value in the middle goes to the even neighbour.
-/

namespace CodeIndex.Decimal

/-- The quotient rounded to the nearest whole number, a half to the even one. -/
def roundDiv (num den : Nat) : Nat :=
  let q := num / den
  let twice := 2 * (num % den)
  if twice < den then q
  else if den < twice then q + 1
  else q + q % 2

/-- The magnitude of `b` with `places` decimals, as a whole number of last places. -/
def Binary.places (b : Binary) (places : Nat) : Nat :=
  roundDiv (b.scaled * Nat.pow 10 places) unit

/-- A whole number of last places with the point in its place. -/
def fixedText (places n : Nat) : String :=
  let whole := toString (n / Nat.pow 10 places)
  if places == 0 then whole
  else whole ++ "." ++ String.ofList (digitsOf places (n % Nat.pow 10 places))

/-- A float with exactly `places` decimals. `zeroSign` keeps the sign of a result whose
digits are all zero. -/
def fixed (places : Nat) (zeroSign : Bool) (x : Float) : String :=
  match Value.ofFloat x with
  | .nan => "NaN"
  | .infinite negative => if negative then "-inf" else "inf"
  | .finite b =>
    let n := b.places places
    let sign := if b.negative && (zeroSign || n != 0) then "-" else ""
    sign ++ fixedText places n

end CodeIndex.Decimal
