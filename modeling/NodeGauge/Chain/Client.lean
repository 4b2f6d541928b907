/-
  NodeGauge.Chain.Client — the reads of the chain as jobs. The address of the contract
  that pays the rewards is asked for on first use and kept once an answer has given it;
  a failure keeps nothing, so the next use asks again.
-/

import NodeGauge.Job

namespace NodeGauge.Chain.Client

open Job (send)

def latestBlock : Job Int := do
  match ← send (.call .latestBlock) with
  | .ok n => return n
  | .error message => .fail (.unreachable message)

def bytesOf (contract : Address) (data : Bytes) (block : BlockTag) : Job Bytes := do
  match ← send (.call (.read contract data block)) with
  | .ok bytes => return bytes
  | .error message => .fail (.unreachable message)

def numberOf (contract : Address) (data : Bytes) (block : BlockTag) : Job Nat := do
  decodeNumber (← bytesOf contract data block)

variable (storage : Address)

def rewardsPool : Job Address := do
  match ← send .rewardsPool with
  | some a => return a
  | none =>
    let a ← decodeAddress (← bytesOf storage (getAddress rewardsPoolKey) .latest)
    send (.keepRewardsPool a)
    return a

/-- The first interval that has not ended. -/
def rewardIndex : Job Nat := do numberOf (← rewardsPool storage) getRewardIndex .latest

def claimedBitmap (node : Text) (bucket : Int) : Job Nat := do
  numberOf storage (getUint (← claimsKey node bucket)) .latest

/-- The block of a number; a negative one counts back from the latest, which is -1. -/
def blockAt (block : Int) : Job BlockTag := do
  if 0 ≤ block then return .number block.toNat
  let n := (← latestBlock) + block + 1
  if 0 ≤ n then return .number n.toNat else .fail .noSuchBlock

/-- The node's share of a minipool's balance, as the minipool computes it. -/
def nodeShare (minipool : Address) (balance : Wei) (block : Int) : Job Nat := do
  if balance.fits then numberOf minipool (calculateNodeShare balance.toNat) (← blockAt block) else .fail .balanceMisfit

def nodeShareOf (minipool : Text) (balance : Wei) (block : Int) : Job Nat :=
  match Address.ofChecksummed? minipool with
  | some a => nodeShare a balance block
  | none => .fail .addressSpelling

end NodeGauge.Chain.Client
