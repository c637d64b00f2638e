import FormulaSearch.Random.Draw

/-!
# The seeded source

The words of a search come from the ChaCha keystream with twelve rounds, whose key is expanded from
a 64-bit seed. The counter is 64 bits wide and starts at zero; the last two words of the state are
zero. A 64-bit word is two words of the keystream, the low one first.
-/

namespace FormulaSearch

structure Lanes where
  w0 : UInt32
  w1 : UInt32
  w2 : UInt32
  w3 : UInt32
deriving DecidableEq

namespace Lanes

def add (x y : Lanes) : Lanes := ⟨x.w0 + y.w0, x.w1 + y.w1, x.w2 + y.w2, x.w3 + y.w3⟩

def xor (x y : Lanes) : Lanes := ⟨x.w0 ^^^ y.w0, x.w1 ^^^ y.w1, x.w2 ^^^ y.w2, x.w3 ^^^ y.w3⟩

/-- Every word rotated to the left, by fewer than 32 places and at least one. -/
def rotateBits (n : UInt32) (x : Lanes) : Lanes :=
  let rotate (w : UInt32) := (w <<< n) ||| (w >>> (32 - n))
  ⟨rotate x.w0, rotate x.w1, rotate x.w2, rotate x.w3⟩

def shift (x : Lanes) : Lanes := ⟨x.w1, x.w2, x.w3, x.w0⟩

theorem shift_shift_shift_shift (x : Lanes) : x.shift.shift.shift.shift = x := rfl

def toList (x : Lanes) : List UInt32 := [x.w0, x.w1, x.w2, x.w3]

end Lanes

/-- The sixteen words of the cipher's state, by rows. -/
structure CipherBlock where
  row0 : Lanes
  row1 : Lanes
  row2 : Lanes
  row3 : Lanes
deriving DecidableEq

namespace CipherBlock

def add (x y : CipherBlock) : CipherBlock :=
  ⟨x.row0.add y.row0, x.row1.add y.row1, x.row2.add y.row2, x.row3.add y.row3⟩

/-- One quarter round on each of the four columns. -/
def mixColumns (x : CipherBlock) : CipherBlock :=
  let a := x.row0.add x.row1
  let d := (x.row3.xor a).rotateBits 16
  let c := x.row2.add d
  let b := (x.row1.xor c).rotateBits 12
  let a := a.add b
  let d := (d.xor a).rotateBits 8
  let c := c.add d
  let b := (b.xor c).rotateBits 7
  ⟨a, b, c, d⟩

def skew (x : CipherBlock) : CipherBlock :=
  ⟨x.row0, x.row1.shift, x.row2.shift.shift, x.row3.shift.shift.shift⟩

def unskew (x : CipherBlock) : CipherBlock :=
  ⟨x.row0, x.row1.shift.shift.shift, x.row2.shift.shift, x.row3.shift⟩

theorem unskew_skew (x : CipherBlock) : x.skew.unskew = x := rfl

/-- A round on the columns and a round on the diagonals. -/
def doubleRound (x : CipherBlock) : CipherBlock := x.mixColumns.skew.mixColumns.unskew

/-- Twelve rounds, with the input added at the end. -/
def scramble (x : CipherBlock) : CipherBlock :=
  (Nat.repeat doubleRound 6 x).add x

def toList (x : CipherBlock) : List UInt32 :=
  x.row0.toList ++ x.row1.toList ++ x.row2.toList ++ x.row3.toList

end CipherBlock

/-- The generator that expands a seed into a key: a linear congruential step, then the state's high
bits folded and rotated by its topmost five. -/
structure SeedExpander where
  state : UInt64

namespace SeedExpander

def next (x : SeedExpander) : UInt32 × SeedExpander :=
  let s := x.state * 6364136223846793005 + 11634580027462260723
  let folded := (((s >>> 18) ^^^ s) >>> 27).toUInt32
  let turn := (s >>> 59).toUInt32
  ((folded >>> turn) ||| (folded <<< (32 - turn)), ⟨s⟩)

def nextLanes (x : SeedExpander) : Lanes × SeedExpander :=
  let (w0, x) := x.next
  let (w1, x) := x.next
  let (w2, x) := x.next
  let (w3, x) := x.next
  (⟨w0, w1, w2, w3⟩, x)

end SeedExpander

structure Keystream where
  keyLow : Lanes
  keyHigh : Lanes
  counter : UInt64 := 0
  /-- The words of the current block that are not yet taken. -/
  rest : List UInt32 := []

namespace Keystream

def ofSeed (seed : UInt64) : Keystream :=
  let (keyLow, x) := SeedExpander.nextLanes ⟨seed⟩
  let (keyHigh, _) := x.nextLanes
  { keyLow, keyHigh }

def block (k : Keystream) : List UInt32 :=
  let input : CipherBlock :=
    { row0 := ⟨0x61707865, 0x3320646e, 0x79622d32, 0x6b206574⟩
      row1 := k.keyLow
      row2 := k.keyHigh
      row3 := ⟨k.counter.toUInt32, (k.counter >>> 32).toUInt32, 0, 0⟩ }
  input.scramble.toList

def next (k : Keystream) : UInt32 × Keystream :=
  match k.rest with
  | w :: rest => (w, { k with rest })
  | [] =>
    let k' := { k with counter := k.counter + 1 }
    match k.block with
    | w :: rest => (w, { k' with rest })
    | [] => (0, k')

instance : WordSource Keystream where
  word32 := next
  word64 k :=
    let (low, k) := k.next
    let (high, k) := k.next
    (low.toUInt64 ||| (high.toUInt64 <<< 32), k)

end Keystream

end FormulaSearch
