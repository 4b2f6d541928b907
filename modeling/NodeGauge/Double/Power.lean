/-
  NodeGauge.Double.Power — `x ^ y`, within 0.54 units in the last place: the exponential
  of `y · log x` in doubles. The logarithm and the exponential each split their argument
  at a grid of 128 points, take the value at the point from a series and the rest from a
  polynomial, and the logarithm comes as the sum of two doubles so that the product keeps
  its precision.

  The result is one of the two doubles beside the exact power and not always the nearer,
  so each rounding on the way belongs to the definition.
-/

import NodeGauge.Double.Series

namespace NodeGauge.Double.Power

/-! ## The logarithm -/

def log2Parts : Double × Double := Series.split Series.log2

/-- The bits of the coefficients: `log (1 + r)` is about
    `r + s + r s (c₀ + c₁ r + s (c₂ + c₃ r + s (c₄ + c₅ r)))` with `s = -r² / 2`. -/
def logCoefficients : List Nat :=
  [0xBFE5555555555560, 0x3FE0000000000006, 0x3FE999999959554E, 0xBFE555555529A47A, 0xBFF2495B9B4845E9,
   0x3FF0002B8B263FC3]

def coefficient (cs : List Nat) (i : Nat) : Double := ofBits (cs.getD i 0)

/-- The rank that would follow the normal numbers downward: a subnormal's place if its
    exponent could still go down. -/
def extendedRank (rank : Nat) : Int :=
  if rank < leastNormal then (rankOf (rank <<< 52) (1 <<< 1074) : Int) - 52 * leastNormal else rank

def lowest : Nat := 0x3FE6955500000000

def inverseAt (i : Nat) : Nat × Nat :=
  let centre := lowest + (2 * i + 1) <<< 44
  (roundEven (1 <<< 60) (mant centre), if centre < 0x3FF0000000000000 then 128 else 256)

/-- The logarithm of a positive finite number as the sum of a double and a small one:
    `k log 2 + log c + log (z / c)` where the number is `2 ^ k · z`, `z` in the range and
    `c` beside the middle of its interval. -/
def log (rank : Nat) : Double × Double :=
  let above := extendedRank rank - lowest
  let k := above / leastNormal
  let i := (above / (1 <<< 45 : Nat) % 128).toNat
  let z := ofBits (extendedRank rank - k * leastNormal).toNat
  let (n, d) := inverseAt i
  let (logC, logCRest) := Series.split (Series.log d n)
  let c := coefficient logCoefficients
  let r := mulAdd z (ofRatio false n d) (-1)
  let t := mulAdd (ofInt k) log2Parts.1 logC
  let u := t + r
  let h := ofRatio true 1 2 * r
  let s := r * h
  let p := mulAdd s (mulAdd s (mulAdd r (c 5) (c 4)) (mulAdd r (c 3) (c 2))) (mulAdd r (c 1) (c 0))
  let hi := u + s
  let small := mulAdd (ofInt k) log2Parts.2 logCRest + (t - u + r) + mulAdd h r (-s) + (u - hi + s)
  let lo := mulAdd (r * s) p small
  (hi + lo, hi - (hi + lo) + lo)

/-! ## The exponential -/

def stepsPerUnit : Double := ofRatio false (128 <<< Series.places) Series.log2.natAbs

def stepParts : Double × Double := Series.split (-Series.log2 / 128)

def shift : Double := ofRatio false (3 <<< 51) 1

/-- The bits of the coefficients: `exp r` is about `1 + r + r² (c₀ + c₁ r) + r⁴ (c₂ + c₃ r)`. -/
def expCoefficients : List Nat := [0x3FDFFFFFFFFFFDBD, 0x3FC555555555543C, 0x3FA55555CF172B91, 0x3F81111167A4D017]

def stepAt (i : Nat) : Double × Double :=
  let exact := Series.exp (Series.log2 * i / 128)
  let near := roundEven exact.natAbs (1 <<< (Series.places - 52))
  let rest := exact - near <<< (Series.places - 52)
  (ofRatio false near (1 <<< 52), ofRatio (rest < 0) (rest.natAbs <<< 52) (near <<< Series.places))

def scaled (x : Double) (e : Int) : Double :=
  match x with
  | .num neg r _ => ofDyadic neg (mant r) (expo r + e)
  | .nan => .nan

/-- `scale · (1 + rest)` for a scale of `2 ^ e · near` that may leave the range of the
    normal numbers: it is taken near one and brought back at the end, and a subnormal
    result is rounded to its own last place before. -/
def finish (near rest : Double) (e : Int) : Double :=
  if 0 ≤ e then
    let s := scaled near (e - 1009)
    scaled (mulAdd s rest s) 1009
  else
    let s := scaled near (e + 1022)
    let part := s * rest
    let y := s + part
    match y with
    | .num neg r _ =>
      if r < 0x3FF0000000000000 then
        let one : Double := if neg then -1 else 1
        let lo := s - y + part
        let hi := one + y
        let sum := hi + (one - hi + y + lo) - one
        scaled (if sum.isZero then zero neg else sum) (-1022)
      else scaled y (-1022)
    | .nan => .nan

def exp (neg : Bool) (x tail : Double) : Double :=
  let sign : Double := if neg then -1 else 1
  match x with
  | .nan => .nan
  | .num below rank _ =>
    if rank < 969 * leastNormal then sign * (1 + x)
    else if 1033 * leastNormal ≤ rank then if below then zero neg else inf neg
    else
      let steps := mulAdd stepsPerUnit x shift - shift
      let n := match steps with
        | .num s r _ => truncate s r
        | .nan => 0
      let r := mulAdd steps stepParts.2 (mulAdd steps stepParts.1 x) + tail
      let (near, rest) := stepAt (n % 128).toNat
      let c := coefficient expCoefficients
      let r2 := r * r
      let p := mulAdd (r2 * r2) (mulAdd r (c 3) (c 2)) (mulAdd r2 (mulAdd r (c 1) (c 0)) (rest + r))
      if 1032 * leastNormal ≤ rank then finish (sign * near) p (n / 128)
      else
        let s := scaled (sign * near) (n / 128)
        mulAdd s p s

def finite (neg : Bool) (base : Nat) (y : Double) : Double :=
  let (hi, lo) := log base
  let product := y * hi
  exp neg product (mulAdd y lo (mulAdd y hi (-product)))

/-! ## Zero and infinity -/

def parity (rank : Nat) : Option Bool :=
  let d := 1 <<< (-expo rank).toNat
  let n := mant rank <<< (expo rank).toNat
  if n % d = 0 then some (n / d % 2 = 1) else none

def isOdd (rank : Nat) : Bool := rank < infRank && parity rank = some true

/-- The base is zero or infinite: the power is zero if the base is zero and the exponent
    positive, or the base infinite and the exponent negative, and infinite otherwise; an
    odd exponent keeps the sign of the base. -/
def extreme (neg : Bool) (rank : Nat) (expNeg : Bool) (expRank : Nat) : Double :=
  let s := neg && isOdd expRank
  if (rank == 0) == expNeg then inf s else zero s

end Power

def oneRank : Nat := rankOf 1 1

/-- `x ^ y` as the standard has it: anything to the zero is 1 and so is 1 to anything, a
    NaN otherwise stays, and a negative base has a power only for an integer exponent. -/
def pow : Double → Double → Double
  | _, .num _ 0 _ => 1
  | .num false r _, y => if r = oneRank then 1 else match y with
    | .nan => .nan
    | .num t q h =>
      if q = infRank then if (oneRank < r) == !t then inf false else zero false
      else if r = 0 ∨ r = infRank then Power.extreme false r t q
      else Power.finite false r (.num t q h)
  | .num true r _, .num t q h =>
    if q = infRank then if r = oneRank then 1 else if (oneRank < r) == !t then inf false else zero false
    else if r = 0 ∨ r = infRank then Power.extreme true r t q
    else match Power.parity q with
      | none => .nan
      | some odd => Power.finite odd r (.num t q h)
  | _, _ => .nan

end NodeGauge.Double
