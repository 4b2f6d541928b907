/-
  NodeGauge.Keccak — the Keccak-256 digest: 24 rounds of the permutation on a state of
  5 × 5 lanes of 64 bits, blocks of 136 bytes, padding of one bit at each end.
-/

import NodeGauge.Text.Utf8

namespace NodeGauge.Keccak

/-- Lane `x`, `y` stands at `5 y + x`. -/
abbrev State := Array UInt64

def lane (s : State) (x y : Nat) : UInt64 := s.getD (5 * (y % 5) + x % 5) 0

def build (f : Nat → Nat → UInt64) : State := Array.ofFn fun i : Fin 25 => f (i.val % 5) (i.val / 5)

def rotate (w : UInt64) (n : Nat) : UInt64 :=
  if n % 64 = 0 then w else (w <<< UInt64.ofNat (n % 64)) ||| (w >>> UInt64.ofNat (64 - n % 64))

def offsets : Array Nat :=
  #[0, 1, 62, 28, 27, 36, 44, 6, 55, 20, 3, 10, 43, 25, 39, 41, 45, 15, 21, 8, 18, 2, 61, 56, 14]

def roundConstants : List UInt64 :=
  [0x0000000000000001, 0x0000000000008082, 0x800000000000808A, 0x8000000080008000,
   0x000000000000808B, 0x0000000080000001, 0x8000000080008081, 0x8000000000008009,
   0x000000000000008A, 0x0000000000000088, 0x0000000080008009, 0x000000008000000A,
   0x000000008000808B, 0x800000000000008B, 0x8000000000008089, 0x8000000000008003,
   0x8000000000008002, 0x8000000000000080, 0x000000000000800A, 0x800000008000000A,
   0x8000000080008081, 0x8000000000008080, 0x0000000080000001, 0x8000000080008008]

/-- Adds to each lane the parity of a column beside it and of one one bit off. -/
def theta (s : State) : State :=
  let column := fun x => lane s x 0 ^^^ lane s x 1 ^^^ lane s x 2 ^^^ lane s x 3 ^^^ lane s x 4
  let c := #[column 0, column 1, column 2, column 3, column 4]
  build fun x y => lane s x y ^^^ c.getD ((x + 4) % 5) 0 ^^^ rotate (c.getD ((x + 1) % 5) 0) 1

def rhoPi (s : State) : State :=
  build fun x y =>
    let x' := (x + 3 * y) % 5
    rotate (lane s x' x) (offsets.getD (5 * x + x') 0)

def chi (s : State) : State := build fun x y => lane s x y ^^^ (~~~lane s (x + 1) y &&& lane s (x + 2) y)

def round (s : State) (k : UInt64) : State := (chi (rhoPi (theta s))).modify 0 (· ^^^ k)

def permute (s : State) : State := roundConstants.foldl round s

def rate : Nat := 136

/-- The bytes with a first bit 1, zeros and a last bit 1 behind them, up to a whole block. -/
def pad (bs : Bytes) : Bytes :=
  let k := rate - bs.length % rate
  if k = 1 then bs ++ [0x81] else bs ++ 0x01 :: (List.replicate (k - 2) 0 ++ [0x80])

def word (bs : Bytes) : UInt64 := bs.foldr (fun b w => (w <<< 8) ||| b.toUInt64) 0

def absorb (s : State) (block : Bytes) : State :=
  permute (build fun x y => lane s x y ^^^ if 5 * y + x < 17 then word ((block.drop (8 * (5 * y + x))).take 8) else 0)

def absorbAll : (blocks : Nat) → State → Bytes → State
  | 0, s, _ => s
  | n + 1, s, bs => absorbAll n (absorb s (bs.take rate)) (bs.drop rate)

def bytesOfWord (w : UInt64) : Bytes := (List.range 8).map fun i => (w >>> UInt64.ofNat (8 * i)).toUInt8

def digest (bs : Bytes) : Bytes :=
  let p := pad bs
  let s := absorbAll (p.length / rate) (Array.replicate 25 0) p
  (List.range 4).flatMap fun i => bytesOfWord (lane s i 0)

end NodeGauge.Keccak
