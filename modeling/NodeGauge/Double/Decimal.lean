/-
  NodeGauge.Double.Decimal — doubles in decimal: the double nearest to a decimal number,
  the fewest digits that read back to a double, and their layout as text.

  The numbers that read back to a finite double are those of an interval around it, half
  way to its neighbours, ends included when its significand is even (`readsBack`). For
  1, 2, … digits the two neighbours of the value on that decimal grid are tried; the first
  grid with a hit wins, and of two hits the nearer. Seventeen digits always suffice.
-/

import NodeGauge.Text
import NodeGauge.Double

namespace NodeGauge.Double

def tenTo (k : Nat) : Nat := Nat.pow 10 k

/-- The double nearest to `± n · 10 ^ e`. More than 310 digits before the point are past
    every double, and 330 zeros after it below every one. -/
def ofDecimal (neg : Bool) (n : Nat) (e : Int) : Double :=
  let d := (Nat.toDigits 10 n).length + e
  if n = 0 ∨ d < -330 then zero neg
  else if 310 < d then inf neg
  else ofRatio neg (n * tenTo e.toNat) (tenTo (-e).toNat)

/-! ## The fewest digits -/

def gridPair (d : Nat) (g : Int) (n den : Nat) : Nat × Nat :=
  (d * tenTo g.toNat * den, n * tenTo (-g).toNat)

/-- Does `d · 10 ^ g` round to this rank? In units of a quarter of the last place the
    interval is from 2 below (1 below at a power of two, where the gap is half) to 2 above. -/
def readsBack (rank d : Nat) (g : Int) : Bool :=
  let m := 4 * mant rank
  let e := expo rank - 2
  let below := if mant rank = leastNormal ∧ expo rank ≠ -1074 then 1 else 2
  let scaled := fun k : Nat => gridPair d g (k <<< e.toNat) (1 <<< (-e).toNat)
  let lo := scaled (m - below)
  let hi := scaled (m + 2)
  if mant rank % 2 = 0 then lo.2 ≤ lo.1 && hi.1 ≤ hi.2 else lo.2 < lo.1 && hi.1 < hi.2

/-- The least `k` with the value below `10 ^ k`, from the binary logarithm and exact comparison. -/
def pointOf (rank : Nat) : Int :=
  let n := mant rank <<< (expo rank).toNat
  let d := 1 <<< (-expo rank).toNat
  let k := floorLog2 n d * 30103 / 100000
  let below := fun j : Int => n * tenTo (-j).toNat < d * tenTo j.toNat
  if below k then k else if below (k + 1) then k + 1 else k + 2

def onGrid (rank : Nat) (g : Int) : Option Nat :=
  let n := mant rank <<< (expo rank).toNat
  let den := 1 <<< (-expo rank).toNat
  let d := n * tenTo (-g).toNat / (den * tenTo g.toNat)
  match readsBack rank d g, readsBack rank (d + 1) g with
  | false, false => none
  | true, false => some d
  | false, true => some (d + 1)
  | true, true =>
    let twice := gridPair (2 * d + 1) g (2 * n) den
    if twice.2 < twice.1 ∨ (twice.2 = twice.1 ∧ d % 2 = 0) then some d else some (d + 1)

def strip (ds : List Nat) : List Nat := (ds.reverse.dropWhile (· == 0)).reverse

def digitsOf (n : Nat) : List Nat := (Nat.toDigits 10 n).map fun c => c.toNat - 48

/-- The fewest digits that read back to a rank above zero and below infinity, and where the
    point stands: the value is `0.d₁d₂… · 10 ^ point`. -/
def shortest (rank : Nat) : List Nat × Int :=
  let k := pointOf rank
  let tryGrid := fun i : Nat => (onGrid rank (k - (i + 1))).map fun d => (d, k - ((i : Int) + 1))
  match (List.range 17).findSome? tryGrid with
  | some (d, g) => (strip (digitsOf d), (digitsOf d).length + g)
  | none => ([], 0)

/-! ## Layout -/

def digitCodes (ds : List Nat) : Text := ⟨ds.map (· + 48)⟩

def twoDigits (n : Nat) : Text := digitCodes (if n < 10 then [0, n] else digitsOf n)

/-- Positional while the point stands above `-4` and at most at `widest`, with a digit on
    both sides of it; otherwise one digit before the point and a signed exponent of two
    digits or more. -/
def layout (widest : Int) (ds : List Nat) (point : Int) : Text :=
  let pad := fun n : Int => List.replicate n.toNat 0
  if -4 < point ∧ point ≤ widest then
    let whole := ds.take point.toNat ++ pad (point - ds.length)
    let fraction := pad (-point) ++ ds.drop point.toNat
    digitCodes (if whole.isEmpty then [0] else whole) ++ "." ++ digitCodes (if fraction.isEmpty then [0] else fraction)
  else
    let tail := if ds.length ≤ 1 then Text.empty else "." ++ digitCodes (ds.drop 1)
    let e := point - 1
    digitCodes (ds.take 1) ++ tail ++ (if e < 0 then "e-" else "e+") ++ twoDigits e.natAbs

def text (widest : Bool → Int) (infinite : Bool → Text) (nan : Text) : Double → Text
  | .nan => nan
  | .num neg r _ =>
    if r = infRank then infinite neg
    else
      let sign : Text := if neg then "-" else Text.empty
      if r = 0 then sign ++ "0.0" else sign ++ layout (widest neg) (shortest r).1 (shortest r).2

end NodeGauge.Double
