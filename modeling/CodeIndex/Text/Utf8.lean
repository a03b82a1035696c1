/-!
# Text from bytes

Decoding of UTF-8. The longest start of a faulty sequence that could have been completed
counts as one fault.
-/

namespace CodeIndex.Text

def isContinuation (b : UInt8) : Bool :=
  0x80 ≤ b && b ≤ 0xbf

/-- The bytes that may follow the first byte of a sequence, and how many follow in all;
`none` when no sequence starts with it. -/
def followers (first : UInt8) : Option (UInt8 × UInt8 × Nat) :=
  if 0xc2 ≤ first && first ≤ 0xdf then some (0x80, 0xbf, 1)
  else if first == 0xe0 then some (0xa0, 0xbf, 2)
  else if first == 0xed then some (0x80, 0x9f, 2)
  else if 0xe1 ≤ first && first ≤ 0xef then some (0x80, 0xbf, 2)
  else if first == 0xf0 then some (0x90, 0xbf, 3)
  else if 0xf1 ≤ first && first ≤ 0xf3 then some (0x80, 0xbf, 3)
  else if first == 0xf4 then some (0x80, 0x8f, 3)
  else none

/-- The payload of the first byte of a sequence of `n` further bytes. -/
def payload (first : UInt8) (n : Nat) : Nat :=
  first.toNat % Nat.pow 2 (6 - n)

/-- The payload of a byte that continues a sequence. -/
def tailBits (b : UInt8) : Nat :=
  b.toNat % 64

/-- Decodes bytes; a faulty sequence becomes `none`. -/
def decodeUnits : List UInt8 → List (Option Char)
  | [] => []
  | a :: rest =>
    if a < 0x80 then some (Char.ofNat a.toNat) :: decodeUnits rest
    else
      match followers a, rest with
      | none, rest => none :: decodeUnits rest
      | some _, [] => [none]
      | some (lo, hi, n), b :: rest1 =>
        if !(lo ≤ b && b ≤ hi) then none :: decodeUnits (b :: rest1)
        else if n == 1 then
          some (Char.ofNat (payload a 1 * 64 + tailBits b)) :: decodeUnits rest1
        else
          match rest1 with
          | [] => [none]
          | c :: rest2 =>
            if !isContinuation c then none :: decodeUnits (c :: rest2)
            else if n == 2 then
              some (Char.ofNat ((payload a 2 * 64 + tailBits b) * 64 + tailBits c))
                :: decodeUnits rest2
            else
              match rest2 with
              | [] => [none]
              | d :: rest3 =>
                if !isContinuation d then none :: decodeUnits (d :: rest3)
                else
                  some (Char.ofNat
                    (((payload a 3 * 64 + tailBits b) * 64 + tailBits c) * 64 + tailBits d))
                    :: decodeUnits rest3

def replacement : Char := '\ufffd'

/-- The text of bytes, with a replacement for each fault. -/
def decodeLossy (bytes : List UInt8) : String :=
  String.ofList ((decodeUnits bytes).map (·.getD replacement))

def decode? (bytes : List UInt8) : Option String :=
  ((decodeUnits bytes).mapM id).map String.ofList

end CodeIndex.Text
