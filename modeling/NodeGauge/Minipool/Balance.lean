/-
  NodeGauge.Minipool.Balance — what a minipool holds: its deposits until its validator is
  active, then the validator's balance and the node's share of it. The balances of many
  minipools are resolved in batches, whose members run side by side. No batch follows one
  that failed; here each member of it runs to its end, of which `settled` says more.
-/

import NodeGauge.Chain.Client

namespace NodeGauge

structure BalanceDetails where
  nodeDeposit : Wei
  nodeBalance : Wei
  total : Wei
  deriving DecidableEq, Repr

def Validator.isActive (v : Validator) (epoch : Int) : Bool := v.known && v.activationEpoch < epoch

def Snapshot.activeValidator (s : Snapshot) (epoch : Int) (m : Minipool) : Option Validator :=
  (s.validators.get? m.pubkey).filter (·.isActive epoch)

namespace Minipool

def balance (s : Snapshot) (epoch block : Int) (m : Minipool) : Job BalanceDetails :=
  match s.activeValidator epoch m with
  | none => .done ⟨m.nodeDeposit, m.nodeDeposit, m.nodeDeposit + m.userDeposit⟩
  | some v => do
    let total ← Wei.ofGwei v.balance
    let share ← Chain.Client.nodeShare m.address total block
    return ⟨m.nodeDeposit, share, total⟩

/-! ## Batches -/

/-- Consecutive batches of `size + 1`, the last one of what is left. -/
def batches {α : Type} (size : Nat) (xs : List α) : List (List α) :=
  match xs with
  | [] => []
  | x :: r => (x :: r.take size) :: batches size (r.drop size)
termination_by xs.length
decreasing_by simp only [List.length_drop, List.length_cons]; omega

def faults {α : Type} (rs : List (Except Fault α)) : List Fault :=
  rs.filterMap fun r => match r with
    | .error f => some f
    | .ok _ => none

/-- The values, or the fault of the batch. Of several faults it is a fixed one: one met
    before any call, else the first in order. In time another may be first; it ends a batch
    at once, and members that are still at their calls are not waited for. -/
def settled {α : Type} (rs : List (Except Fault α)) : Except Fault (List α) :=
  match (faults rs).find? (· == .amountOutOfRange) <|> (faults rs).head? with
  | some f => .error f
  | none => .ok (rs.filterMap Except.toOption)

def balancesOf (s : Snapshot) (epoch block : Int) : List (List Minipool) → Job (List BalanceDetails)
  | [] => .done []
  | b :: rest => do
    let found ← settled (← Job.all (b.map (balance s epoch block)))
    return found ++ (← balancesOf s epoch block rest)

/-- The balances in the order of the minipools. No batch has a negative size, and of size
    0 there is none. -/
def balances (batchSize : Int) (s : Snapshot) (epoch block : Int) (minipools : List Minipool) :
    Job (List BalanceDetails) :=
  match batchSize with
  | .ofNat (size + 1) => balancesOf s epoch block (batches size minipools)
  | .ofNat 0 => .fail (.badSetting "MINIPOOL_BALANCES_BATCH_SIZE")
  | .negSucc _ => .done []

end Minipool

end NodeGauge
