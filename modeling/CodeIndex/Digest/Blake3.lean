/-!
# BLAKE3

The hash of a byte sequence. The input is cut into chunks of 1024 bytes, which are the
leaves of a binary tree whose left subtrees are complete; each node is one compression.
-/

namespace CodeIndex.Digest

def initial : List UInt32 :=
  [0x6A09E667, 0xBB67AE85, 0x3C6EF372, 0xA54FF53A, 0x510E527F, 0x9B05688C, 0x1F83D9AB,
    0x5BE0CD19]

/-- The order in which the message words enter the next round. -/
def schedule : List Nat :=
  [2, 6, 3, 10, 7, 0, 4, 13, 1, 11, 12, 5, 9, 14, 15, 8]

/-- First block of a chunk. -/
def chunkStart : UInt32 := 1
/-- Last block of a chunk. -/
def chunkEnd : UInt32 := 2
/-- A node above two others. -/
def parentNode : UInt32 := 4
/-- The node whose output is the hash. -/
def rootNode : UInt32 := 8

def rotate (x : UInt32) (n : UInt32) : UInt32 :=
  (x >>> n) ||| (x <<< (32 - n))

/-- The state of a compression: sixteen words. -/
abbrev State := Array UInt32

def word (s : Array UInt32) (i : Nat) : UInt32 :=
  (s[i]?).getD 0

/-- Mixes two message words into one column or diagonal. -/
def mix (s : State) (a b c d : Nat) (x y : UInt32) : State :=
  let va := word s a + word s b + x
  let vd := rotate (word s d ^^^ va) 16
  let vc := word s c + vd
  let vb := rotate (word s b ^^^ vc) 12
  let va := va + vb + y
  let vd := rotate (vd ^^^ va) 8
  let vc := vc + vd
  let vb := rotate (vb ^^^ vc) 7
  (((s.setIfInBounds a va).setIfInBounds b vb).setIfInBounds c vc).setIfInBounds d vd

/-- One round: four columns, then four diagonals. -/
def round (s : State) (m : Array UInt32) : State :=
  let s := mix s 0 4 8 12 (word m 0) (word m 1)
  let s := mix s 1 5 9 13 (word m 2) (word m 3)
  let s := mix s 2 6 10 14 (word m 4) (word m 5)
  let s := mix s 3 7 11 15 (word m 6) (word m 7)
  let s := mix s 0 5 10 15 (word m 8) (word m 9)
  let s := mix s 1 6 11 12 (word m 10) (word m 11)
  let s := mix s 2 7 8 13 (word m 12) (word m 13)
  mix s 3 4 9 14 (word m 14) (word m 15)

def permute (m : Array UInt32) : Array UInt32 :=
  (schedule.map (word m)).toArray

def rounds : Nat → State → Array UInt32 → State
  | 0, s, _ => s
  | n + 1, s, m => rounds n (round s m) (permute m)

/-- One compression; the first half of the output is the new chaining value. -/
def compress (chaining : List UInt32) (block : Array UInt32) (counter : Nat) (size flags : UInt32) :
    List UInt32 :=
  let start : State := (chaining ++ initial.take 4 ++
    [UInt32.ofNat counter, UInt32.ofNat (counter / Nat.pow 2 32), size, flags]).toArray
  let s := rounds 7 start block
  (List.range 8).map fun i => word s i ^^^ word s (i + 8)

/-- Bytes as little-endian words, the last filled up with zeros. -/
def wordsOf : List UInt8 → List UInt32
  | [] => []
  | [a] => [a.toUInt32]
  | [a, b] => [a.toUInt32 ||| b.toUInt32 <<< 8]
  | [a, b, c] => [a.toUInt32 ||| b.toUInt32 <<< 8 ||| c.toUInt32 <<< 16]
  | a :: b :: c :: d :: rest =>
    (a.toUInt32 ||| b.toUInt32 <<< 8 ||| c.toUInt32 <<< 16 ||| d.toUInt32 <<< 24) :: wordsOf rest

/-- A node whose last compression is still to be done, so that the root can be marked. -/
structure Node where
  chaining : List UInt32
  block : Array UInt32
  counter : Nat
  size : UInt32
  flags : UInt32

/-- The chaining value of a node, which enters the node above. -/
def Node.output (n : Node) : List UInt32 :=
  compress n.chaining n.block n.counter n.size n.flags

def chunkNode (counter : Nat) (chaining : List UInt32) (flags : UInt32) (blocks : Nat)
    (bytes : List UInt8) : Node :=
  match blocks with
  | 0 =>
    ⟨chaining, (wordsOf bytes).toArray, counter, UInt32.ofNat bytes.length, flags ||| chunkEnd⟩
  | blocks + 1 =>
    if bytes.length ≤ 64 then
      ⟨chaining, (wordsOf bytes).toArray, counter, UInt32.ofNat bytes.length,
        flags ||| chunkEnd⟩
    else
      let next := compress chaining (wordsOf (bytes.take 64)).toArray counter 64 flags
      chunkNode counter next 0 blocks (bytes.drop 64)

def parentOf (left right : Node) : Node :=
  ⟨initial, (left.output ++ right.output).toArray, 0, 64, parentNode⟩

def leaves (fuel counter : Nat) (bytes : List UInt8) : List Node :=
  match fuel with
  | 0 => []
  | fuel + 1 =>
    let leaf := chunkNode counter initial chunkStart 16 (bytes.take 1024)
    if bytes.length ≤ 1024 then [leaf]
    else leaf :: leaves fuel (counter + 1) (bytes.drop 1024)

/-- Neighbours joined two by two; an odd one out stays for the next level. -/
def joinPairs : List Node → List Node
  | a :: b :: rest => parentOf a b :: joinPairs rest
  | ns => ns

/-- The root above a row of nodes, level by level. -/
def rootOf (fuel : Nat) (ns : List Node) : Option Node :=
  match fuel, ns with
  | _, [] => none
  | _, [n] => some n
  | 0, _ => none
  | fuel + 1, ns => rootOf fuel (joinPairs ns)

def hexByte (b : Nat) : List Char :=
  let digit (n : Nat) : Char := if n < 10 then Char.ofNat (48 + n) else Char.ofNat (87 + n)
  [digit (b / 16), digit (b % 16)]

/-- A word in hexadecimal, its bytes in the order in which they are put out. -/
def hexWord (w : UInt32) : List Char :=
  let n := w.toNat
  hexByte (n % 256) ++ hexByte (n / Nat.pow 2 8 % 256) ++ hexByte (n / Nat.pow 2 16 % 256)
    ++ hexByte (n / Nat.pow 2 24)

/-- The hash of a byte sequence, in 64 hexadecimal digits. -/
def blake3 (bytes : List UInt8) : String :=
  let ns := leaves (bytes.length / 1024 + 1) 0 bytes
  match rootOf 64 ns with
  | some n =>
    let root : Node := { n with flags := n.flags ||| rootNode }
    String.ofList (root.output.flatMap hexWord)
  | none => ""

end CodeIndex.Digest
