/-
  NodeGauge.Double — binary64 numbers as exact data. A number that is not NaN is its
  sign and its rank, its place in the order of magnitudes: 0 is zero, 1 the least
  subnormal, `infRank` infinity. Rank `r` stands for `mant r · 2 ^ expo r`, and the
  bits of a double are its sign bit and its rank, so the order of ranks is the order
  of magnitudes and the next rank is the next double.

  Every operation is the exact result rounded once, to nearest with ties to the even
  rank (`rankOf`), which is what the standard asks of an operation.
-/

namespace NodeGauge

def infRank : Nat := 0x7FF0000000000000

inductive Double where
  | nan
  | num (neg : Bool) (rank : Nat) (le_inf : rank ≤ infRank)
  deriving DecidableEq, Repr

/-- The integer nearest to `n / d`, the even one of two equally near. -/
def roundEven (n d : Nat) : Nat :=
  if 2 * (n % d) < d ∨ (2 * (n % d) = d ∧ n / d % 2 = 0) then n / d else n / d + 1

def floorLog2 (n d : Nat) : Int :=
  let g : Int := n.log2 - d.log2
  if d <<< g.toNat ≤ n <<< (-g).toNat then g else g - 1

namespace Double

def leastNormal : Nat := 1 <<< 52

def mant (rank : Nat) : Nat := if rank < leastNormal then rank else rank % leastNormal + leastNormal

def expo (rank : Nat) : Int := if rank < leastNormal then -1074 else rank / leastNormal - 1075

def unitExpo (n d : Nat) : Int := max (floorLog2 n d - 52) (-1074)

/-- The rank nearest to `n / d`, the even one of two equally near; what lies past the
    largest finite double by half a unit or more is infinite. -/
def rankOf (n d : Nat) : Nat :=
  if n = 0 then 0 else
    let e := unitExpo n d
    min ((e + 1074).toNat * leastNormal + roundEven (n <<< (-e).toNat) (d <<< e.toNat)) infRank

theorem rankOf_le (n d : Nat) : rankOf n d ≤ infRank := by
  unfold rankOf; split
  · exact Nat.zero_le _
  · exact Nat.min_le_right _ _

def ofRatio (neg : Bool) (n d : Nat) : Double := .num neg (rankOf n d) (rankOf_le n d)

def ofDyadic (neg : Bool) (m : Nat) (e : Int) : Double := ofRatio neg (m <<< e.toNat) (1 <<< (-e).toNat)

def ofInt (n : Int) : Double := ofRatio (n < 0) n.natAbs 1

instance (n : Nat) : OfNat Double n := ⟨ofRatio false n 1⟩

def inf (neg : Bool) : Double := .num neg infRank (Nat.le_refl _)

def zero (neg : Bool) : Double := .num neg 0 (Nat.zero_le _)

instance : Inhabited Double := ⟨zero false⟩

/-! ## Bits -/

def nanBits : Nat := 0x7FF8000000000000

def signBit : Nat := 1 <<< 63

def ofBits (b : Nat) : Double :=
  if h : b % signBit ≤ infRank then .num (b.testBit 63) (b % signBit) h else .nan

def toBits : Double → Nat
  | .nan => nanBits
  | .num neg r _ => (if neg then signBit else 0) + r

/-! ## Parts -/

def isNaN : Double → Bool
  | .nan => true
  | .num .. => false

def isFinite : Double → Bool
  | .nan => false
  | .num _ r _ => r < infRank

def isInf : Double → Bool
  | .nan => false
  | .num _ r _ => r == infRank

def isZero : Double → Bool
  | .nan => false
  | .num _ r _ => r == 0

def signed (neg : Bool) (n : Nat) : Int := if neg then -(n : Int) else n

/-- The integer part of a finite number, toward zero. -/
def truncate (neg : Bool) (rank : Nat) : Int := signed neg (mant rank <<< (expo rank).toNat >>> (-expo rank).toNat)

/-! ## Order -/

def place (neg : Bool) (rank : Nat) : Int := signed neg rank

/-- A NaN is below nothing and above nothing. -/
def lt : Double → Double → Bool
  | .num s r _, .num t q _ => place s r < place t q
  | _, _ => false

def le : Double → Double → Bool
  | .num s r _, .num t q _ => place s r ≤ place t q
  | _, _ => false

instance : LT Double := ⟨fun x y => lt x y⟩
instance : LE Double := ⟨fun x y => le x y⟩
instance (x y : Double) : Decidable (x < y) := inferInstanceAs (Decidable (lt x y = true))
instance (x y : Double) : Decidable (x ≤ y) := inferInstanceAs (Decidable (le x y = true))

/-! ## Arithmetic -/

def neg : Double → Double
  | .nan => .nan
  | .num s r h => .num (!s) r h

/-- The exact sum of `± m · 2 ^ e` and `± k · 2 ^ f`, rounded; a sum of zero is `-0` only
    if both are below zero. -/
def addDyadic (s : Bool) (m : Nat) (e : Int) (t : Bool) (k : Nat) (f : Int) : Double :=
  let g := min e f
  let n := signed s (m <<< (e - g).toNat) + signed t (k <<< (f - g).toNat)
  if n = 0 then zero (s && t) else ofDyadic (n < 0) n.natAbs g

def add : Double → Double → Double
  | .num s r h, .num t q k =>
    if r = infRank then if q = infRank ∧ s ≠ t then .nan else .num s r h
    else if q = infRank then .num t q k
    else addDyadic s (mant r) (expo r) t (mant q) (expo q)
  | _, _ => .nan

def sub (x y : Double) : Double := add x (neg y)

def mul : Double → Double → Double
  | .num s r _, .num t q _ =>
    if r = infRank ∨ q = infRank then if r = 0 ∨ q = 0 then .nan else inf (s != t)
    else ofDyadic (s != t) (mant r * mant q) (expo r + expo q)
  | _, _ => .nan

/-- `x · y + z`, rounded once. -/
def mulAdd : Double → Double → Double → Double
  | .num s r h, .num t q k, .num u p l =>
    if r < infRank ∧ q < infRank ∧ p < infRank then
      addDyadic (s != t) (mant r * mant q) (expo r + expo q) u (mant p) (expo p)
    else add (mul (.num s r h) (.num t q k)) (.num u p l)
  | _, _, _ => .nan

/-- A finite number over zero is infinite, zero over zero is NaN. -/
def div : Double → Double → Double
  | .num s r _, .num t q _ =>
    if r = infRank then if q = infRank then .nan else inf (s != t)
    else if q = infRank then zero (s != t)
    else if q = 0 then if r = 0 then .nan else inf (s != t)
    else
      let e := expo r - expo q
      ofRatio (s != t) (mant r <<< e.toNat) (mant q <<< (-e).toNat)
  | _, _ => .nan

instance : Neg Double := ⟨neg⟩
instance : Add Double := ⟨add⟩
instance : Sub Double := ⟨sub⟩
instance : Mul Double := ⟨mul⟩
instance : Div Double := ⟨div⟩

def sum (xs : List Double) : Double := xs.foldl (· + ·) 0

end Double

end NodeGauge
