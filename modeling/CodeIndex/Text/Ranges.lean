/-!
# Tables of characters

Sets of characters given as intervals of code points, and maps between characters given
as shifted intervals.
-/

namespace CodeIndex.Text

/-- A set of characters, as closed intervals of code points in increasing order. -/
abbrev Ranges := List (Nat × Nat)

def Ranges.has (t : Ranges) (c : Char) : Bool :=
  t.any fun (lo, hi) => lo ≤ c.toNat && c.toNat ≤ hi

/-- The characters `first`, `first + step`, … up to `last`, mapped to `image` and onwards
with the same distances. -/
abbrev Shift := Nat × Nat × Nat × Nat

/-- The image of `c` under the first interval that holds it, or `c` itself. -/
def shiftChar : List Shift → Char → Char
  | [], c => c
  | (first, last, step, image) :: rest, c =>
    let n := c.toNat
    if first ≤ n && n ≤ last && (n - first) % step == 0 then
      Char.ofNat (image + (n - first))
    else shiftChar rest c

end CodeIndex.Text
