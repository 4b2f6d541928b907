/-
  NodeGauge.Cycle — one collection cycle: from the snapshot that is installed to the
  metrics of the node, or nothing. A cycle has three parts. `prepare` takes what the
  cycle starts from, and there is nothing to do while that is not all there. `units` are
  the rewards and the beacon head, side by side. `finish` computes the metrics and
  resolves the balances of the minipools.

  A unit or a balance that fails is noted and ends the cycle without metrics. A fault of
  the snapshot's own amounts is not caught: it is the fault of the cycle. A cycle holds
  its lock from start to end, so cycles follow one another.
-/

import NodeGauge.Beacon.Lookup
import NodeGauge.Minipool.Balance
import NodeGauge.Rewards.Reconcile
import NodeGauge.Rpl

namespace NodeGauge.Cycle

open Job (send note)

/-- What a cycle starts from. -/
structure Basis where
  snapshot : Snapshot
  totalEffective : Wei
  node : NodeDetails
  minipools : List Minipool
  deriving DecidableEq, Repr

namespace Basis

def activeCount (b : Basis) : Nat := b.minipools.countP (!·.finalised)

end Basis

/-- What the snapshot alone tells. -/
structure Estimates where
  staked : Double
  effective : Double
  collateral : Double
  rewards : Double
  apr : Double
  shareSkimmed : Double
  refund : Double
  distributable : Double
  deriving DecidableEq, Repr

def estimate (b : Basis) : Except Fault Estimates := do
  let network := b.snapshot.network
  let staked ← Wei.toEther b.node.rplStake
  let effective ← Wei.toEther b.node.effectiveRplStake
  let seconds := Double.ofInt network.intervalSeconds
  let inflation ← Wei.toEther network.inflationRate
  let supply ← Wei.toEther network.rplSupply
  let issuance ← Rpl.issuance inflation (seconds / Rpl.secondsPerDay) supply
  let totalEffective ← Wei.toEther b.totalEffective
  let percent ← Wei.toEther network.rewardsPercent
  let rewards := Rpl.estimatedRewards effective totalEffective issuance percent
  let apr := Rpl.apr rewards staked (seconds / Rpl.secondsPerHour)
  let price ← Wei.toEther network.rplPrice
  let collateral := Rpl.collateralRatio price staked (Double.ofInt b.activeCount)
  let skimmed ← b.minipools.mapM fun m => do
    return (← Wei.toEther m.nodeShareOfBalance, ← Wei.toEther m.nodeRefund, ← Wei.toEther m.distributable)
  return {
    staked, effective, collateral, rewards, apr
    shareSkimmed := Double.sum (skimmed.map (·.1))
    refund := Double.sum (skimmed.map (·.2.1))
    distributable := Double.sum (skimmed.map (·.2.2)) }

/-- The metrics of all that was found out. -/
def metrics (b : Basis) (e : Estimates) (unclaimed : Rewards.Unclaimed) (balances : List BalanceDetails)
    (ledger : Rewards.Ledger) : Except Fault Metrics := do
  let ether ← balances.mapM fun d => do
    return (← Wei.toEther d.nodeDeposit, ← Wei.toEther d.nodeBalance, ← Wei.toEther d.total)
  let ethBalance ← Wei.toEther b.node.balanceEth
  let oldRplBalance ← Wei.toEther b.node.balanceOldRpl
  let newRplBalance ← Wei.toEther b.node.balanceRpl
  let rethBalance ← Wei.toEther b.node.balanceReth
  return {
    totalStakedRpl := e.staked
    effectiveStakedRpl := e.effective
    rplCollateral := e.collateral
    cumulativeRplRewards := ledger.rpl
    expectedRplRewards := e.rewards
    rplApr := e.apr
    ethBalance, oldRplBalance, newRplBalance, rethBalance
    activeMinipoolCount := Double.ofInt b.activeCount
    depositedEth := Double.sum (ether.map (·.1))
    beaconShare := Double.sum (ether.map (·.2.1))
    beaconBalance := Double.sum (ether.map (·.2.2))
    unclaimedRplRewards := unclaimed.rpl
    claimedEthRewards := ledger.eth
    unclaimedEthRewards := unclaimed.eth
    totalEthRewardsSkimmed := e.distributable
    totalEthRewardsShareSkimmed := e.shareSkimmed
    totalRefundEthSkimmed := e.refund }

variable (cfg : Settings) (node : Address)

/-- The snapshot and the total are looked at one after the other. -/
def prepare : Job (Option Basis) := do
  let some snapshot ← send .snapshot | return none
  let some totalEffective ← send .total | return none
  let some details := snapshot.nodes.get? node | return none
  return some ⟨snapshot, totalEffective, details, (snapshot.minipools.get? node).getD []⟩

def units : Job (Except Fault Rewards.Unclaimed × Except Fault Beacon.Head) :=
  Job.fork (Rewards.reconcile cfg node.text) (Beacon.head cfg)

def finish (b : Basis) (unclaimed : Rewards.Unclaimed) (head : Beacon.Head) : Job (Option Metrics) := do
  let e ← estimate b
  match ← (Minipool.balances cfg.batchSize b.snapshot head.epoch b.snapshot.block b.minipools).attempt with
  | .error f =>
    note (.balancesFailed f)
    return none
  | .ok balances => return some (← metrics b e unclaimed balances (← send .ledger))

/-- The cycle without its lock. -/
def body : Job (Option Metrics) := do
  let some b ← prepare node | return none
  match ← units cfg node with
  | (.ok unclaimed, .ok head) => finish cfg b unclaimed head
  | (.error f, _) | (_, .error f) =>
    note (.cycleFailed f)
    return none

def collect : Job (Option Metrics) := Job.withLock .cycle (body cfg node)

end NodeGauge.Cycle
