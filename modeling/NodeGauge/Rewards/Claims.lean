/-
  NodeGauge.Rewards.Claims — which intervals a node has claimed. The registry keeps a bit
  per interval, 256 of them in a bitmap; intervals from the reward index on have not
  begun and belong to neither side.
-/

namespace NodeGauge.Rewards

def bucketSize : Nat := 256

structure ClaimStatus where
  unclaimed : List Int
  claimed : List Int
  deriving DecidableEq, Repr

namespace ClaimStatus

def empty : ClaimStatus := ⟨[], []⟩

def append (a b : ClaimStatus) : ClaimStatus := ⟨a.unclaimed ++ b.unclaimed, a.claimed ++ b.claimed⟩

instance : Append ClaimStatus := ⟨append⟩

end ClaimStatus

/-- Bit `i` of an integer; a negative one has infinitely many ones in front. -/
def bit (bitmap : Int) (i : Nat) : Bool := bitmap >>> i % 2 == 1

/-- The intervals of a bucket below the reward index, with whether each is claimed. -/
def marks (bitmap bucket index : Int) : List (Int × Bool) :=
  ((List.range bucketSize).map fun i : Nat => (bucket * bucketSize + (i : Int), bit bitmap i)).takeWhile (·.1 < index)

def decodeBitmap (bitmap bucket index : Int) : ClaimStatus :=
  let ms := marks bitmap bucket index
  ⟨(ms.filter (!·.2)).map (·.1), (ms.filter (·.2)).map (·.1)⟩

end NodeGauge.Rewards
