/-
  NodeGauge.Rewards.Reconcile — the rewards unit of a cycle. It resolves every interval
  below the reward index, claimed ones only if the ledger has not folded them in yet, and
  commits the claimed ones when all of them are known. A tree file that is missing fails
  the unit before anything is committed.
-/

import NodeGauge.Rewards.Resolve

namespace NodeGauge.Rewards

open Job (send)

structure Unclaimed where
  rpl : Double
  eth : Double
  deriving DecidableEq, Repr

variable (cfg : Settings) (node : Text)

def resolved (claimed : Bool) (interval : Int) : Job IntervalInfo := do
  let info ← intervalInfo cfg node interval
  if info.found then return info else .fail (.treeMissing info.path interval claimed)

def newlyClaimed : List Int → Job (List IntervalInfo)
  | [] => .done []
  | i :: rest => do
    if (← send .ledger).isHandled i then newlyClaimed rest
    else
      let info ← resolved cfg node true i
      return info :: (← newlyClaimed rest)

/-- The exact sums over intervals that are not claimed. A tree that does not name the
    node adds nothing. -/
def unclaimedSums : List Int → Job (Wei × Wei)
  | [] => .done (0, 0)
  | i :: rest => do
    let info ← resolved cfg node false i
    let (rpl, eth) ← unclaimedSums rest
    return if info.listed then (info.collateralRpl + rpl, info.smoothingPoolEth + eth) else (rpl, eth)

/-- Folds newly claimed intervals into the ledger; the outcome is what is unclaimed. -/
def reconcile : Job Unclaimed := do
  let status ← claimStatus cfg node
  let infos ← newlyClaimed cfg node status.claimed
  let (rpl, eth) ← unclaimedSums cfg node status.unclaimed
  let block ← Chain.Client.latestBlock
  Job.ofExcept (← send (.commit infos block))
  return { rpl := ← Wei.toEther rpl, eth := ← Wei.toEther eth }

end NodeGauge.Rewards
