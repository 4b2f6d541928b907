/-
  NodeGauge.Rewards.Resolve — the jobs that find out about a node's rewards: which
  intervals it has claimed, from the chain, and what an interval holds for it, from the
  interval's tree file.
-/

import NodeGauge.Chain.Client
import NodeGauge.Rewards.Claims
import NodeGauge.Settings

namespace NodeGauge.Rewards

open NodeGauge.Chain (Client.claimedBitmap Client.rewardIndex)

variable (cfg : Settings)

def claimsFrom (node : Text) (index : Nat) : (left bucket : Nat) → Job ClaimStatus
  | 0, _ => .done .empty
  | left + 1, bucket => do
    let bitmap ← Client.claimedBitmap cfg.network.storage node bucket
    return decodeBitmap bitmap bucket index ++ (← claimsFrom node index left (bucket + 1))

/-- The claims of all intervals below the reward index. No bucket is read while the
    index is 0; otherwise those up to the bucket of the index itself are. -/
def claimStatus (node : Text) : Job ClaimStatus := do
  let index ← Client.rewardIndex cfg.network.storage
  if index = 0 then return .empty
  claimsFrom cfg node index (index / bucketSize + 1) 0

def intervalInfo (node : Text) (interval : Int) : Job IntervalInfo := do
  let path := treePath cfg.network.treeName cfg.treesDir interval
  intervalOf node interval path (← Job.send (.file path))

end NodeGauge.Rewards
