/-
  NodeGauge.Wei — amounts in wei, the smallest unit, and their conversion to ether and
  from gwei. An amount is any integer while it is summed; a conversion takes only what
  an unsigned word of 256 bits holds.
-/

import NodeGauge.Double
import NodeGauge.Fault

namespace NodeGauge

abbrev Wei := Int

namespace Wei

def maxWord : Int := (1 <<< 256 : Nat) - 1

def weiPerEther : Nat := 1000000000000000000

def weiPerGwei : Int := 1000000000

def fits (v : Wei) : Bool := 0 ≤ v && v ≤ maxWord

/-- The amount in ether: the exact quotient by 10^18, rounded once. -/
def toEther (v : Wei) : Except Fault Double :=
  if fits v then .ok (Double.ofRatio false v.toNat weiPerEther) else .error .amountOutOfRange

def ofGwei (g : Int) : Except Fault Wei :=
  if fits (g * weiPerGwei) then .ok (g * weiPerGwei) else .error .amountOutOfRange

end Wei

end NodeGauge
