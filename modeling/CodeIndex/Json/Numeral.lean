import CodeIndex.Json.Basic
/-!
# Numbers in JSON text

A number is kept as written until its value is asked for. Whole numbers that fit 64 bits
are exact. Any other number becomes a float: as many leading digits as fit 64 bits are
kept, and the result is multiplied or divided once by a power of ten.
-/

namespace CodeIndex.Json

/-- A number as written: digits before and after the point, and the exponent. -/
structure Numeral where
  negative : Bool
  whole : List Nat
  fraction : List Nat
  exponent : Option (Bool × List Nat)
  /-- A point or an exponent is written. -/
  isFloat : Bool
  deriving Repr, DecidableEq

/-- Appends digits while the number fits 64 bits, and counts the digits that are left out:
the first that does not fit and all after it. -/
def appendDigits (significand : Nat) : List Nat → Nat × Nat
  | [] => (significand, 0)
  | d :: ds =>
    let next := significand * 10 + d
    if next ≤ maxWord then appendDigits next ds else (significand, ds.length + 1)

/-- The power of ten that is applied in one multiplication. -/
def powerOfTen (n : Nat) : Float :=
  Float.ofScientific 1 false n

/-- `f * 10 ^ e`, in as few roundings as powers up to 308 allow; `none` beyond all floats. -/
def scaleFloat (fuel : Nat) (f : Float) (e : Int) : Option Float :=
  match fuel with
  | 0 => some f
  | fuel + 1 =>
    if e.natAbs ≤ 308 then
      if 0 ≤ e then
        let r := f * powerOfTen e.natAbs
        if r.isInf then none else some r
      else some (f / powerOfTen e.natAbs)
    else if f == 0.0 then some f
    else if 0 ≤ e then none
    else scaleFloat fuel (f / powerOfTen 308) (e + 308)

def maxExponent : Nat := Nat.pow 2 31 - 1

def digitsValue (ds : List Nat) : Nat :=
  ds.foldl (fun n d => n * 10 + d) 0

/-- The value as a float; `none` beyond all floats. -/
def Numeral.float? (n : Numeral) : Option Float :=
  let (head, dropped) := appendDigits 0 n.whole
  let (significand, cut) := appendDigits head n.fraction
  let shift : Int := dropped - (n.fraction.length - cut : Nat)
  let sign (f : Float) : Float := if n.negative then -f else f
  match n.exponent with
  | none => (scaleFloat 12 (Float.ofNat significand) shift).map sign
  | some (down, ds) =>
    let size := digitsValue ds
    if maxExponent < size then
      if significand != 0 && !down then none else some (sign 0.0)
    else
      let e : Int := if down then shift - size else shift + size
      let clamped := max (-(maxExponent : Int) - 1) (min (maxExponent : Int) e)
      (scaleFloat 10000000 (Float.ofNat significand) clamped).map sign

def Numeral.value (n : Numeral) : Json :=
  let ofFloat : Json := match n.float? with
    | some x => float x
    | none => unreadable
  if n.isFloat then ofFloat
  else
    let v := digitsValue n.whole
    if n.negative then
      if v == 0 || Nat.pow 2 63 < v then ofFloat else int (-(v : Int))
    else if v ≤ maxWord then int v
    else ofFloat

end CodeIndex.Json
