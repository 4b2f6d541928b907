/-
  NodeGauge.Proofs.Snapshot.Reading — what a snapshot has of its document, under any way to
  read an integer. The parser takes its integers from members by name: a record has in each
  of its fields the integer of the member that is there (`Tells`), and a document that is
  accepted falls into the parts that the snapshot is made of (`parts_of_parseBy`).
-/

import NodeGauge.Proofs.Json.Integers
import NodeGauge.Proofs.Json.Tables
import NodeGauge.Snapshot

namespace NodeGauge.Snapshot

variable {read : Json → Except Fault Int} {j : Json}

/-! ## Records -/

/-- Each field of the record has the integer of the member of its name that is there. -/
def Tells {ρ : Type} (read : Json → Except Fault Int) (fields : List (String × (ρ → Int))) (j : Json) (r : ρ) : Prop :=
  ∀ f ∈ fields, ∀ v, j.member f.1 = .ok v → read v = .ok (f.2 r)

def networkFields : List (String × (NetworkDetails → Int)) := [
  ("rpl_inflation_interval_rate", (·.inflationRate)), ("rpl_total_supply", (·.rplSupply)),
  ("interval_duration", (·.intervalSeconds)), ("node_operator_rewards_percent", (·.rewardsPercent)),
  ("rpl_price", (·.rplPrice))]

def nodeFields : List (String × (NodeDetails → Int)) := [
  ("rpl_stake", (·.rplStake)), ("effective_rpl_stake", (·.effectiveRplStake)), ("balance_eth", (·.balanceEth)),
  ("balance_old_rpl", (·.balanceOldRpl)), ("balance_rpl", (·.balanceRpl)), ("balance_reth", (·.balanceReth)),
  ("deposited_eth", (·.depositedEth))]

def minipoolFields : List (String × (Minipool → Int)) := [
  ("node_deposit_balance", (·.nodeDeposit)), ("user_deposit_balance", (·.userDeposit)),
  ("node_share_of_balance", (·.nodeShareOfBalance)), ("node_refund_balance", (·.nodeRefund)),
  ("distributable_balance", (·.distributable))]

def validatorFields : List (String × (Validator → Int)) := [
  ("balance", (·.balance)), ("activation_epoch", (·.activationEpoch))]

theorem required_tells {key : String} {n : Int} (h : required read key j = .ok n) {v : Json}
    (hv : j.member key = .ok v) : read v = .ok n := by
  unfold required at h
  rwa [hv] at h

theorem optional_tells {key : String} {n : Int} (h : optional read key j = .ok n) {v : Json}
    (hv : j.member key = .ok v) : read v = .ok n := by
  unfold optional at h
  rwa [Json.memberD_of_member hv] at h

theorem duration_ok_iff {n m : Int} :
    duration n = .ok m ↔ m = n ∧ -maxDays ≤ n / 86400 ∧ n / 86400 ≤ maxDays := by
  unfold duration
  split
  · next h => simp [h, eq_comm]
  · next h => simp [h]

theorem parseNetwork_tells {d : NetworkDetails} (h : parseNetwork read j = .ok d) :
    Tells read networkFields j d ∧ duration d.intervalSeconds = .ok d.intervalSeconds := by
  unfold parseNetwork at h
  simp only [except_bind_ok, pure, Except.pure, Except.ok.injEq] at h
  obtain ⟨_, hrate, _, hsupply, _, hseconds, _, hduration, _, hpercent, _, hprice, rfl⟩ := h
  obtain ⟨rfl, hdays⟩ := duration_ok_iff.mp hduration
  refine ⟨?_, duration_ok_iff.mpr ⟨rfl, hdays⟩⟩
  simp only [Tells, networkFields, List.forall_mem_cons]
  exact ⟨fun _ => required_tells hrate, fun _ => required_tells hsupply, fun _ => required_tells hseconds,
    fun _ => required_tells hpercent, fun _ => required_tells hprice, nofun⟩

theorem parseNode_tells {d : NodeDetails} (h : parseNode read j = .ok d) : Tells read nodeFields j d := by
  unfold parseNode at h
  simp only [except_bind_ok, pure, Except.pure, Except.ok.injEq] at h
  obtain ⟨_, hstake, _, heffective, _, heth, _, hold, _, hrpl, _, hreth, _, hdeposited, rfl⟩ := h
  simp only [Tells, nodeFields, List.forall_mem_cons]
  exact ⟨fun _ => required_tells hstake, fun _ => required_tells heffective, fun _ => optional_tells heth,
    fun _ => optional_tells hold, fun _ => optional_tells hrpl, fun _ => optional_tells hreth,
    fun _ => optional_tells hdeposited, nofun⟩

theorem parseMinipool_tells {m : Minipool} (h : parseMinipool read j = .ok m) : Tells read minipoolFields j m := by
  unfold parseMinipool at h
  simp only [except_bind_ok, pure, Except.pure, Except.ok.injEq] at h
  obtain ⟨_, -, _, -, _, -, _, -, _, -, _, hnode, _, huser, _, hshare, _, hrefund, _, hdistributable, rfl⟩ := h
  simp only [Tells, minipoolFields, List.forall_mem_cons]
  exact ⟨fun _ => optional_tells hnode, fun _ => optional_tells huser, fun _ => optional_tells hshare,
    fun _ => optional_tells hrefund, fun _ => optional_tells hdistributable, nofun⟩

theorem parseValidator_tells {x : Validator} (h : parseValidator read j = .ok x) :
    Tells read validatorFields j x := by
  unfold parseValidator at h
  simp only [except_bind_ok, pure, Except.pure, Except.ok.injEq] at h
  obtain ⟨_, -, _, hbalance, _, hepoch, rfl⟩ := h
  simp only [Tells, validatorFields, List.forall_mem_cons]
  exact ⟨fun _ => optional_tells hbalance, fun _ => optional_tells hepoch, nofun⟩

/-! ## Parts -/

/-- The parts of an accepted document, and what the snapshot has of them. -/
structure Parts (read : Json → Except Fault Int) (j : Json) (s : Snapshot) (total : Option Wei) : Prop where
  network : ∃ v, j.member "network_details" = .ok v ∧ parseNetwork read v = .ok s.network
  nodes : tableIn "node_details" (fun t => Address.ofJson (.text t)) (parseNode read) j = .ok s.nodes
  minipools : tableIn "minipool_details" (fun t => Address.ofJson (.text t)) (parseMinipools read) j = .ok s.minipools
  validators : tableIn "validator_details" (fun t => .ok t.lower) (parseValidator read) j = .ok s.validators
  block : required read "el_block_number" j = .ok s.block
  total : ∃ v, j.memberD "total_effective_rpl_stake" .null = .ok v ∧ parseTotal read v = .ok total

theorem parts_of_parseBy {s : Snapshot} {total : Option Wei} (h : parseBy read j = .ok (s, total)) :
    Parts read j s total := by
  unfold parseBy at h
  obtain ⟨v, hv, h⟩ := except_bind_ok.mp h
  obtain ⟨network, hnetwork, h⟩ := except_bind_ok.mp h
  obtain ⟨nodes, hnodes, h⟩ := except_bind_ok.mp h
  obtain ⟨minipools, hminipools, h⟩ := except_bind_ok.mp h
  obtain ⟨validators, hvalidators, h⟩ := except_bind_ok.mp h
  obtain ⟨block, hblock, h⟩ := except_bind_ok.mp h
  obtain ⟨u, hu, h⟩ := except_bind_ok.mp h
  obtain ⟨total', htotal, h⟩ := except_bind_ok.mp h
  cases h
  exact ⟨⟨v, hv, hnetwork⟩, hnodes, hminipools, hvalidators, hblock, ⟨u, hu, htotal⟩⟩

/-- An interval that is read is not too long for a duration. -/
theorem intervalSeconds_bound {s : Snapshot} {total : Option Wei} (h : parse j = .ok (s, total)) :
    -maxDays ≤ s.network.intervalSeconds / 86400 ∧ s.network.intervalSeconds / 86400 ≤ maxDays := by
  obtain ⟨v, -, hnetwork⟩ := (parts_of_parseBy h).network
  exact (duration_ok_iff.mp (parseNetwork_tells hnetwork).2).2

end NodeGauge.Snapshot
