/-
  NodeGauge.Double.Series — logarithms and exponentials of ratios in fixed point, with
  `places` bits after the point, and doubles made of them. The error of a series is a
  few hundred units in the last place, far below what a double can tell.
-/

import NodeGauge.Double

namespace NodeGauge.Double.Series

def places : Nat := 192

/-- Terms of a series: in each a term is below a ninth of the one before it or divided by
    its place, so those left out are below one unit. -/
def terms : Nat := 64

def unit : Int := 1 <<< places

def atanh (n d : Int) : Int :=
  let t := n * unit / d
  let t2 := t * t / unit
  ((List.range terms).foldl (fun (a : Int × Int) (i : Nat) => (a.1 + a.2 / (2 * i + 1), a.2 * t2 / unit)) (0, t)).1

def log (n d : Int) : Int := 2 * atanh (n - d) (n + d)

def log2 : Int := log 2 1

def exp (r : Int) : Int :=
  ((List.range terms).foldl (fun (a : Int × Int) (i : Nat) => (a.1 + a.2, a.2 * r / (i + 1) / unit)) (0, unit)).1

def toDouble (v : Int) : Double := ofRatio (v < 0) v.natAbs (1 <<< places)

/-- The multiple of 2^-43 nearest to a number, and the double nearest to the rest. -/
def split (v : Int) : Double × Double :=
  let n := signed (v < 0) (roundEven v.natAbs (1 <<< (places - 43)))
  (ofRatio (v < 0) n.natAbs (1 <<< 43), toDouble (v - n <<< (places - 43)))

end NodeGauge.Double.Series
