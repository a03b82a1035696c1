import CodeIndex.Decimal.Binary
/-!
# The shortest decimal that reads back

Of all decimals that lie nearer to a float than to any other float, the one with the
fewest digits, and of those the one nearest to it. Digit counts are tried from one
upwards; on each grid only the two neighbours of the value can be the answer.
-/

namespace CodeIndex.Decimal

/-- The interval of decimals that read back as `b`, with the value itself, all as
fractions with the denominator `4 * unit`. -/
structure Basin where
  low : Nat
  value : Nat
  high : Nat
  /-- The ends themselves read back as the value. -/
  closed : Bool

/-- Half-way to both neighbours. The lower neighbour of a power of two is nearer. -/
def Binary.basin (b : Binary) : Basin :=
  let step := Nat.pow 2 b.power
  let down := if b.mantissa == Nat.pow 2 52 && b.power != 0 then step else 2 * step
  { low := 4 * b.scaled - down
    value := 4 * b.scaled
    high := 4 * b.scaled + 2 * step
    closed := b.mantissa % 2 == 0 }

/-- The fraction `n / (4 * unit)` lies in the basin. -/
def Basin.has (w : Basin) (num den : Nat) : Bool :=
  if w.closed then w.low * den ≤ num && num ≤ w.high * den
  else w.low * den < num && num < w.high * den

/-- Digits and the power of ten of the last one. -/
structure Digits where
  coefficient : Nat
  exponent : Int
  deriving Repr, DecidableEq

/-- The multiple of ten to `e` next below the value and the one next above that read back;
the nearer of the two, if any, and the even one when they are equally near. -/
def Basin.onGrid (w : Basin) (e : Int) : Option Digits :=
  let den := Nat.pow 10 (-e).toNat
  let step := 4 * unit * Nat.pow 10 e.toNat
  let below := w.value * den / step
  let above := below + 1
  let lowOk := w.has (below * step) den && below != 0
  let highOk := w.has (above * step) den
  let lowGap := w.value * den - below * step
  let highGap := above * step - w.value * den
  match lowOk, highOk with
  | true, true =>
    let takesLow := lowGap < highGap || (lowGap == highGap && below % 2 == 0)
    some (if takesLow then ⟨below, e⟩ else ⟨above, e⟩)
  | true, false => some ⟨below, e⟩
  | false, true => some ⟨above, e⟩
  | false, false => none

/-- The first answer on the grids `e`, `e - 1`, … of which `fuel` are tried. -/
def Basin.search (w : Basin) (fuel : Nat) (e : Int) : Digits :=
  match fuel with
  | 0 => ⟨w.value, 0⟩
  | fuel + 1 => (w.onGrid e).getD (w.search fuel (e - 1))

/-- Digits without zeros at their end. -/
def Digits.normal (fuel : Nat) (d : Digits) : Digits :=
  match fuel with
  | 0 => d
  | fuel + 1 =>
    if d.coefficient != 0 && d.coefficient % 10 == 0 then
      Digits.normal fuel ⟨d.coefficient / 10, d.exponent + 1⟩
    else d

/-- The power of ten of the leading digit of `n / unit`, for a positive `n`. -/
def leadingPower (n : Nat) : Int :=
  if unit ≤ n then (Nat.toDigits 10 (n / unit)).length - 1
  else
    let scaled := n * Nat.pow 10 330 / unit
    (Nat.toDigits 10 scaled).length - 331

def Binary.shortest (b : Binary) : Digits :=
  (b.basin.search 18 (leadingPower b.scaled)).normal 400

/-- How the digits of a number are laid out. -/
structure Layout where
  /-- Leading digits from ten to this power on are written without an exponent. -/
  lowest : Int
  /-- Leading digits up to ten to this power are written without an exponent. -/
  highest : Int

/-- The digits in positional or scientific notation. A positional number always has a
point, and a positive exponent is written with its sign. -/
def Layout.write (l : Layout) (d : Digits) : String :=
  let ds := Nat.toDigits 10 d.coefficient
  let lead : Int := d.exponent + ds.length - 1
  if l.lowest ≤ lead && lead ≤ l.highest then
    if 0 ≤ d.exponent then
      String.ofList (ds ++ List.replicate d.exponent.toNat '0') ++ ".0"
    else if 0 ≤ lead then
      let n := (lead + 1).toNat
      String.ofList (ds.take n) ++ "." ++ String.ofList (ds.drop n)
    else
      "0." ++ String.ofList (List.replicate (-lead - 1).toNat '0' ++ ds)
  else
    let head := String.ofList (ds.take 1)
    let tail := if ds.length ≤ 1 then "" else "." ++ String.ofList (ds.drop 1)
    let sign := if lead < 0 then "-" else "+"
    head ++ tail ++ "e" ++ sign ++ toString lead.natAbs

/-- The shortest text of a finite float; `none` for the others. -/
def Layout.text? (l : Layout) (x : Float) : Option String :=
  match Value.ofFloat x with
  | .finite b =>
    let sign := if b.negative then "-" else ""
    if b.mantissa == 0 then some (sign ++ "0.0")
    else some (sign ++ l.write b.shortest)
  | _ => none

end CodeIndex.Decimal
