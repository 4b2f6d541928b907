/-
  NodeGauge.Rpl — what the stake of RPL is worth: the RPL minted for an interval, the
  node's part of it, the yearly return and the collateral behind the node's minipools.
-/

import NodeGauge.Double.Power
import NodeGauge.Settings

namespace NodeGauge.Rpl

def secondsPerDay : Double := 86400

def secondsPerHour : Double := 3600

def hoursPerYear : Double := 8760

/-- A power of finite numbers must be one: a power that is not real and zero to a negative
    power are undefined, and an infinite one is too large. -/
def power (x y : Double) : Except Fault Double :=
  let p := Double.pow x y
  if x.isFinite ∧ y.isFinite then
    if p.isNaN ∨ (p.isInf ∧ x.isZero) then .error .powerUndefined
    else if p.isInf then .error .powerOverflow
    else .ok p
  else .ok p

def clamp (x : Double) : Double := if x < 0 then 0 else x

def issuance (inflationPerDay intervalDays totalSupply : Double) : Except Fault Double := do
  return clamp (((← power inflationPerDay intervalDays) - 1) * totalSupply)

def estimatedRewards (effective totalEffective issuance operatorPercent : Double) : Double :=
  if totalEffective ≤ 0 then 0 else effective / totalEffective * issuance * operatorPercent

/-- The return of a year in percent of the stake. -/
def apr (estimated staked intervalHours : Double) : Double :=
  if staked ≤ 0 ∨ intervalHours ≤ 0 then 0 else estimated / staked / intervalHours * hoursPerYear * 100

/-- The worth of the stake in ETH, by the bond of the active minipools. -/
def collateralRatio (price staked activeMinipools : Double) : Double :=
  if activeMinipools ≤ 0 then 0 else price * staked / (activeMinipools * Settings.bondSize)

end NodeGauge.Rpl
