/-
  NodeGauge.Proofs.Metrics — the twenty fields of the metrics as data, so that what holds
  of each of them can be said once.
-/

import Mathlib.Data.List.Nodup
import NodeGauge.Metrics

namespace NodeGauge.Metrics

inductive Field where
  | totalStakedRpl
  | effectiveStakedRpl
  | rplCollateral
  | cumulativeRplRewards
  | expectedRplRewards
  | rplApr
  | ethBalance
  | oldRplBalance
  | newRplBalance
  | rethBalance
  | activeMinipoolCount
  | depositedEth
  | beaconShare
  | beaconBalance
  | unclaimedRplRewards
  | claimedEthRewards
  | unclaimedEthRewards
  | totalEthRewardsSkimmed
  | totalEthRewardsShareSkimmed
  | totalRefundEthSkimmed
  deriving DecidableEq, Repr

namespace Field

def value : Field → Metrics → Double
  | totalStakedRpl, m => m.totalStakedRpl
  | effectiveStakedRpl, m => m.effectiveStakedRpl
  | rplCollateral, m => m.rplCollateral
  | cumulativeRplRewards, m => m.cumulativeRplRewards
  | expectedRplRewards, m => m.expectedRplRewards
  | rplApr, m => m.rplApr
  | ethBalance, m => m.ethBalance
  | oldRplBalance, m => m.oldRplBalance
  | newRplBalance, m => m.newRplBalance
  | rethBalance, m => m.rethBalance
  | activeMinipoolCount, m => m.activeMinipoolCount
  | depositedEth, m => m.depositedEth
  | beaconShare, m => m.beaconShare
  | beaconBalance, m => m.beaconBalance
  | unclaimedRplRewards, m => m.unclaimedRplRewards
  | claimedEthRewards, m => m.claimedEthRewards
  | unclaimedEthRewards, m => m.unclaimedEthRewards
  | totalEthRewardsSkimmed, m => m.totalEthRewardsSkimmed
  | totalEthRewardsShareSkimmed, m => m.totalEthRewardsShareSkimmed
  | totalRefundEthSkimmed, m => m.totalRefundEthSkimmed

/-- The fields in the order of the record. -/
def all : List Field := [
  totalStakedRpl, effectiveStakedRpl, rplCollateral, cumulativeRplRewards, expectedRplRewards, rplApr, ethBalance,
  oldRplBalance, newRplBalance, rethBalance, activeMinipoolCount, depositedEth, beaconShare, beaconBalance,
  unclaimedRplRewards, claimedEthRewards, unclaimedEthRewards, totalEthRewardsSkimmed, totalEthRewardsShareSkimmed,
  totalRefundEthSkimmed]

theorem mem_all (f : Field) : f ∈ all := by
  cases f <;> decide

theorem nodup_all : all.Nodup := by decide

end Field

end NodeGauge.Metrics
