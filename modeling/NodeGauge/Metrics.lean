/-
  NodeGauge.Metrics — what one cycle finds out about the node.
-/

import NodeGauge.Double

namespace NodeGauge

structure Metrics where
  totalStakedRpl : Double
  effectiveStakedRpl : Double
  rplCollateral : Double
  cumulativeRplRewards : Double
  expectedRplRewards : Double
  rplApr : Double
  ethBalance : Double
  oldRplBalance : Double
  newRplBalance : Double
  rethBalance : Double
  activeMinipoolCount : Double
  depositedEth : Double
  beaconShare : Double
  beaconBalance : Double
  unclaimedRplRewards : Double
  claimedEthRewards : Double
  unclaimedEthRewards : Double
  totalEthRewardsSkimmed : Double
  totalEthRewardsShareSkimmed : Double
  totalRefundEthSkimmed : Double
  deriving DecidableEq, Repr

end NodeGauge
