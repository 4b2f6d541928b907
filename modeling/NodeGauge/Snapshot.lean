/-
  NodeGauge.Snapshot — the state of the network at a block as its file has it: the
  network's parameters, the nodes, their minipools and the validators. Addresses and
  public keys may be spelled in any case. The members are read in a fixed order and the
  first that cannot be read is the fault of the whole.
-/

import NodeGauge.Address
import NodeGauge.Wei

namespace NodeGauge

structure NetworkDetails where
  inflationRate : Wei
  rplSupply : Wei
  intervalSeconds : Int
  rewardsPercent : Wei
  rplPrice : Wei
  deriving DecidableEq, Repr

structure NodeDetails where
  rplStake : Wei
  effectiveRplStake : Wei
  balanceEth : Wei
  balanceOldRpl : Wei
  balanceRpl : Wei
  balanceReth : Wei
  depositedEth : Wei
  deriving DecidableEq, Repr

structure Minipool where
  address : Address
  pubkey : Text
  finalised : Bool
  nodeDeposit : Wei
  userDeposit : Wei
  nodeShareOfBalance : Wei
  nodeRefund : Wei
  distributable : Wei
  deriving DecidableEq, Repr

structure Validator where
  known : Bool
  /-- In gwei. -/
  balance : Int
  activationEpoch : Int
  deriving DecidableEq, Repr

structure Snapshot where
  block : Int
  network : NetworkDetails
  nodes : Table Address NodeDetails
  minipools : Table Address (List Minipool)
  validators : Table Text Validator
  deriving DecidableEq, Repr

namespace Snapshot

/-- The most days a duration has, either way. -/
def maxDays : Int := 999999999

def duration (seconds : Int) : Except Fault Int :=
  if -maxDays ≤ seconds / 86400 ∧ seconds / 86400 ≤ maxDays then .ok seconds else .error .durationTooLong

/-- A table with the entries of an object put in, each key and then its value read in turn. -/
def tableFrom {κ ν : Type} [DecidableEq κ] (key : Text → Except Fault κ) (value : Json → Except Fault ν)
    (t : Table κ ν) (entries : List (Text × Json)) : Except Fault (Table κ ν) :=
  entries.foldlM (fun t e => do
    let k ← key e.1
    let v ← value e.2
    return t.put k v) t

def tableIn {κ ν : Type} [DecidableEq κ] (name : String) (key : Text → Except Fault κ)
    (value : Json → Except Fault ν) (j : Json) : Except Fault (Table κ ν) := do
  tableFrom key value [] (← (← j.memberD name (.object [])).entries)

/-! ## The members, under a way to read an integer -/

section Members

variable (read : Json → Except Fault Int)

/-- The integer of the member that must be there. -/
def required (key : String) (j : Json) : Except Fault Int := do read (← j.member key)

/-- The integer of the member, 0 where it is missing. -/
def optional (key : String) (j : Json) : Except Fault Int := do read (← j.memberD key (.int 0))

def parseNetwork (j : Json) : Except Fault NetworkDetails := do
  let inflationRate ← required read "rpl_inflation_interval_rate" j
  let rplSupply ← required read "rpl_total_supply" j
  let intervalSeconds ← duration (← required read "interval_duration" j)
  let rewardsPercent ← required read "node_operator_rewards_percent" j
  let rplPrice ← required read "rpl_price" j
  return { inflationRate, rplSupply, intervalSeconds, rewardsPercent, rplPrice }

def parseNode (j : Json) : Except Fault NodeDetails := do
  let rplStake ← required read "rpl_stake" j
  let effectiveRplStake ← required read "effective_rpl_stake" j
  let balanceEth ← optional read "balance_eth" j
  let balanceOldRpl ← optional read "balance_old_rpl" j
  let balanceRpl ← optional read "balance_rpl" j
  let balanceReth ← optional read "balance_reth" j
  let depositedEth ← optional read "deposited_eth" j
  return { rplStake, effectiveRplStake, balanceEth, balanceOldRpl, balanceRpl, balanceReth, depositedEth }

def parseMinipool (j : Json) : Except Fault Minipool := do
  let address ← Address.ofJson (← j.member "address")
  let pubkey ← (← j.member "pubkey").lowered
  let finalised := (← j.memberD "finalised" (.bool false)).truth
  let nodeDeposit ← optional read "node_deposit_balance" j
  let userDeposit ← optional read "user_deposit_balance" j
  let nodeShareOfBalance ← optional read "node_share_of_balance" j
  let nodeRefund ← optional read "node_refund_balance" j
  let distributable ← optional read "distributable_balance" j
  return { address, pubkey, finalised, nodeDeposit, userDeposit, nodeShareOfBalance, nodeRefund, distributable }

def parseMinipools (j : Json) : Except Fault (List Minipool) := do (← j.elements).mapM (parseMinipool read)

def parseValidator (j : Json) : Except Fault Validator := do
  let known := (← j.memberD "exists" (.bool true)).truth
  let balance ← optional read "balance" j
  let activationEpoch ← optional read "activation_epoch" j
  return { known, balance, activationEpoch }

def parseTotal : Json → Except Fault (Option Wei)
  | .null => .ok none
  | v => some <$> read v

/-- The snapshot of a document, and the total effective stake of RPL if it tells it. -/
def parseBy (j : Json) : Except Fault (Snapshot × Option Wei) := do
  let network ← parseNetwork read (← j.member "network_details")
  let address := fun t => Address.ofJson (.text t)
  let nodes ← tableIn "node_details" address (parseNode read) j
  let minipools ← tableIn "minipool_details" address (parseMinipools read) j
  let validators ← tableIn "validator_details" (fun t => .ok t.lower) (parseValidator read) j
  let block ← required read "el_block_number" j
  let total ← parseTotal read (← j.memberD "total_effective_rpl_stake" .null)
  return ({ block, network, nodes, minipools, validators }, total)

end Members

def parse : Json → Except Fault (Snapshot × Option Wei) := parseBy Json.toInt

end Snapshot

end NodeGauge
