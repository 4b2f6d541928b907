/-
  NodeGauge.Chain.StorageKey — the keys of the registry contract: the digest of a label
  and what follows it, packed without lengths. What is hashed (`claimsPreimage`,
  `contractPreimage`) stands apart from the digest, so that keys can be told apart before
  hashing.

  Packing is by hexadecimal digits: an address is 40 of them, a bucket 64 and all it has
  if that is more, and a zero stands in front of an odd number of digits.
-/

import NodeGauge.Address

namespace NodeGauge.Chain

def bucketDigits (bucket : Nat) : List Nat :=
  if bucket < 1 <<< 256 then Hex.digits 64 bucket else Hex.allDigits bucket

def packDigits (ds : List Nat) : Bytes := Hex.pairs (if ds.length % 2 = 0 then ds else 0 :: ds)

def labelBytes (label : String) : Bytes := (Text.ofString label).toUtf8

/-- What is hashed for the bitmap of claims of a node in a bucket of 256 intervals. -/
def claimsPreimage (node : Address) (bucket : Nat) : Bytes :=
  packDigits (Hex.ofBytes (labelBytes "rewards.interval.claimed") ++ node.digits ++ bucketDigits bucket)

def contractPreimage (name : String) : Bytes := labelBytes "contract.address" ++ labelBytes name

/-- The registry's key of a bitmap of claims. The node must be in its checksummed spelling;
    its fault comes before that of a negative bucket. -/
def claimsKey (node : Text) (bucket : Int) : Except Fault Bytes :=
  match Address.ofChecksummed? node with
  | none => .error .addressSpelling
  | some a => if bucket < 0 then .error .negativeBucket else .ok (Keccak.digest (claimsPreimage a bucket.toNat))

def rewardsPoolKey : Bytes := Keccak.digest (contractPreimage "rocketRewardsPool")

end NodeGauge.Chain
