/-
  NodeGauge.Proofs.Cycle.Faults — when a cycle is at fault itself. What fails in a unit or
  a balance is noted and gives no metrics, but the amounts of the snapshot are turned into
  ether outside of both. A snapshot may be installed whatever integers it holds, and one
  that is no amount, or an inflation whose power is not finite, is the fault of every cycle
  that gets as far (`collect_error_iff`), and of the scrape it runs for.

  `parsed_snapshot_fails`: such a snapshot can come from a file, here with a negative stake.
-/

import NodeGauge.Json.Reader
import NodeGauge.Proofs.Cycle.Outcome
import NodeGauge.Proofs.Rpl
import NodeGauge.Service

namespace NodeGauge.Cycle

open Job
open NodeGauge.Rewards (reconcile)

/-! ## Amounts that can be shown -/

namespace Basis

/-- The days of an interval. -/
def days (b : Basis) : Double := Double.ofInt b.snapshot.network.intervalSeconds / Rpl.secondsPerDay

/-- What the snapshot alone tells can be computed. -/
structure Estimable (b : Basis) : Prop where
  stake : b.node.rplStake.IsAmount
  effective : b.node.effectiveRplStake.IsAmount
  inflation : b.snapshot.network.inflationRate.IsAmount
  supply : b.snapshot.network.rplSupply.IsAmount
  totalEffective : b.totalEffective.IsAmount
  percent : b.snapshot.network.rewardsPercent.IsAmount
  price : b.snapshot.network.rplPrice.IsAmount
  minipools : ∀ m ∈ b.minipools, m.nodeShareOfBalance.IsAmount ∧ m.nodeRefund.IsAmount ∧ m.distributable.IsAmount
  power : ∀ rate, Wei.toEther b.snapshot.network.inflationRate = .ok rate →
    rate.isFinite = true → b.days.isFinite = true → (Double.pow rate b.days).isFinite = true

/-- The balances of the minipools and of the node's wallet can be shown. -/
structure Showable (b : Basis) (balances : List BalanceDetails) : Prop where
  balances : ∀ d ∈ balances, d.nodeDeposit.IsAmount ∧ d.nodeBalance.IsAmount ∧ d.total.IsAmount
  eth : b.node.balanceEth.IsAmount
  oldRpl : b.node.balanceOldRpl.IsAmount
  newRpl : b.node.balanceRpl.IsAmount
  reth : b.node.balanceReth.IsAmount

end Basis

theorem exists_bind_ok_iff {α β : Type} {x : Except Fault α} {f : α → Except Fault β} :
    (∃ b, x >>= f = .ok b) ↔ ∃ a, x = .ok a ∧ ∃ b, f a = .ok b := by
  simp only [except_bind_ok]
  constructor
  · intro h
    obtain ⟨b, a, hx, hf⟩ := h
    exact ⟨a, hx, b, hf⟩
  · intro h
    obtain ⟨a, hx, b, hf⟩ := h
    exact ⟨b, a, hx, hf⟩

theorem exists_mapM_ok_iff {α β : Type} (f : α → Except Fault β) (xs : List α) :
    (∃ ys, xs.mapM f = .ok ys) ↔ ∀ x ∈ xs, ∃ y, f x = .ok y := by
  induction xs with
  | nil => exact ⟨fun _ x hx => (List.not_mem_nil hx).elim, fun _ => ⟨[], rfl⟩⟩
  | cons x xs ih =>
    simp only [Rewards.mapM_cons_ok_iff, List.forall_mem_cons, ← ih]
    constructor
    · intro h
      obtain ⟨ys, y, rest, hy, hrest, -⟩ := h
      exact ⟨⟨y, hy⟩, rest, hrest⟩
    · intro h
      obtain ⟨⟨y, hy⟩, rest, hrest⟩ := h
      exact ⟨_, y, rest, hy, hrest, rfl⟩

theorem exists_estimate_iff (b : Basis) : (∃ e, estimate b = .ok e) ↔ b.Estimable := by
  unfold estimate Rpl.issuance
  simp only [exists_bind_ok_iff, exists_mapM_ok_iff, pure, Except.pure, Except.ok.injEq, exists_eq', and_true,
    Wei.exists_toEther_iff, exists_and_right, Rpl.exists_power_iff]
  constructor
  · intro ⟨hstake, heff, ⟨rate, hrate, hsupply, hpower, htotal, hpercent, hprice, hpools⟩⟩
    refine ⟨hstake, heff, Wei.exists_toEther_iff.mp ⟨rate, hrate⟩, hsupply, htotal, hpercent, hprice, hpools, ?_⟩
    intro rate' hrate'
    cases hrate.symm.trans hrate'
    exact hpower
  · intro h
    obtain ⟨rate, hrate⟩ := Wei.exists_toEther_iff.mpr h.inflation
    exact ⟨h.stake, h.effective, rate, hrate, h.supply, h.power rate hrate, h.totalEffective, h.percent, h.price,
      h.minipools⟩

theorem exists_metrics_iff (b : Basis) (e : Estimates) (unclaimed : Rewards.Unclaimed)
    (balances : List BalanceDetails) (l : Rewards.Ledger) :
    (∃ m, metrics b e unclaimed balances l = .ok m) ↔ b.Showable balances := by
  unfold metrics
  simp only [exists_bind_ok_iff, exists_mapM_ok_iff, pure, Except.pure, Except.ok.injEq, exists_eq', and_true,
    Wei.exists_toEther_iff, exists_and_right]
  exact ⟨fun ⟨hb, he, ho, hn, hr⟩ => ⟨hb, he, ho, hn, hr⟩, fun ⟨hb, he, ho, hn, hr⟩ => ⟨hb, he, ho, hn, hr⟩⟩

/-! ## The faults of a cycle -/

variable {w : World} {cfg : Settings} {node : Address}

/-- Both units succeed and leave the cycle with something that cannot be computed. -/
def Fails (cfg : Settings) (node : Address) (w : World) : Prop :=
  ∃ b unclaimed head, basis? node w.memory = some b ∧ (reconcile cfg node.text).answer w = .ok unclaimed ∧
    (Beacon.head cfg).answer w = .ok head ∧
    (¬ b.Estimable ∨ ∃ balances, balancesAt cfg b head.epoch w = .ok balances ∧ ¬ b.Showable balances)

/-- Once both units succeeded, a cycle comes to a fault, to no metrics as the balances
    failed, or to metrics. -/
theorem conclude_cases (cfg : Settings) (w : World) (b : Basis) (l : Rewards.Ledger) (unclaimed : Rewards.Unclaimed)
    (head : Beacon.Head) :
    (¬ b.Estimable ∧ ∃ f, conclude cfg b w l (.ok unclaimed, .ok head) = .error f) ∨
    (b.Estimable ∧ ∃ f, balancesAt cfg b head.epoch w = .error f ∧
      conclude cfg b w l (.ok unclaimed, .ok head) = .ok none) ∨
    (b.Estimable ∧ ∃ balances, balancesAt cfg b head.epoch w = .ok balances ∧
      (¬ b.Showable balances ∧ (∃ f, conclude cfg b w l (.ok unclaimed, .ok head) = .error f) ∨
        b.Showable balances ∧ ∃ m, conclude cfg b w l (.ok unclaimed, .ok head) = .ok (some m))) := by
  simp only [conclude]
  cases he : estimate b with
  | error f =>
    refine Or.inl ⟨fun h => ?_, f, rfl⟩
    obtain ⟨e, h⟩ := (exists_estimate_iff b).mpr h
    cases he.symm.trans h
  | ok e =>
    have hb : b.Estimable := (exists_estimate_iff b).mp ⟨e, he⟩
    refine Or.inr ?_
    cases balancesAt cfg b head.epoch w with
    | error f => exact Or.inl ⟨hb, f, rfl, rfl⟩
    | ok balances =>
      refine Or.inr ⟨hb, balances, rfl, ?_⟩
      show _ ∧ (∃ f, told b e unclaimed l (.ok balances) = .error f) ∨
        _ ∧ ∃ m, told b e unclaimed l (.ok balances) = .ok (some m)
      rw [← exists_metrics_iff b e unclaimed balances l, told]
      cases metrics b e unclaimed balances l <;> simp

theorem conclude_error_iff (b : Basis) (l : Rewards.Ledger) (unclaimed : Rewards.Unclaimed) (head : Beacon.Head) :
    (∃ f, conclude cfg b w l (.ok unclaimed, .ok head) = .error f) ↔
      ¬ b.Estimable ∨ ∃ balances, balancesAt cfg b head.epoch w = .ok balances ∧ ¬ b.Showable balances := by
  rcases conclude_cases cfg w b l unclaimed head with
    ⟨hb, f, hc⟩ | ⟨hb, f, hr, hc⟩ | ⟨hb, balances, hr, ⟨hs, f, hc⟩ | ⟨hs, m, hc⟩⟩
  · simp [hb, hc]
  · simp [hb, hr, hc]
  · simp [hr, hs, hc]
  · simp [hb, hr, hs, hc]

theorem conclude_emits_iff (b : Basis) (l : Rewards.Ledger) (unclaimed : Rewards.Unclaimed) (head : Beacon.Head) :
    (∃ m, conclude cfg b w l (.ok unclaimed, .ok head) = .ok (some m)) ↔
      b.Estimable ∧ ∃ balances, balancesAt cfg b head.epoch w = .ok balances ∧ b.Showable balances := by
  rcases conclude_cases cfg w b l unclaimed head with
    ⟨hb, f, hc⟩ | ⟨hb, f, hr, hc⟩ | ⟨hb, balances, hr, ⟨hs, f, hc⟩ | ⟨hs, m, hc⟩⟩
  · simp [hb, hc]
  · simp [hr, hc]
  · simp [hr, hs, hc]
  · simp [hb, hr, hs, hc]

/-- Only a cycle whose two units succeed comes to anything but no metrics. -/
theorem verdict_iff {P : Except Fault (Option Metrics) → Prop} (hnone : ¬ P (.ok none)) :
    P (verdict cfg node w) ↔
      ∃ b unclaimed head, basis? node w.memory = some b ∧ (reconcile cfg node.text).answer w = .ok unclaimed ∧
        (Beacon.head cfg).answer w = .ok head ∧
        P (conclude cfg b w ((reconcile cfg node.text).run w).2.memory.ledger (.ok unclaimed, .ok head)) := by
  unfold verdict
  cases basis? node w.memory with
  | none => simp [verdictOn, hnone]
  | some b =>
    cases hu : (reconcile cfg node.text).answer w with
    | error f => simp [verdictOn, hu, conclude, hnone]
    | ok unclaimed =>
      cases hh : (Beacon.head cfg).answer w with
      | error f => simp [verdictOn, hu, hh, conclude, hnone]
      | ok head =>
        simp only [verdictOn, hu, hh]
        constructor
        · intro h
          exact ⟨b, unclaimed, head, rfl, rfl, rfl, h⟩
        · intro h
          obtain ⟨_, _, _, hb, hu, hh, h⟩ := h
          cases hb
          cases hu
          cases hh
          exact h

theorem verdict_error_iff : (∃ f, verdict cfg node w = .error f) ↔ Fails cfg node w := by
  rw [verdict_iff (P := fun x => ∃ f, x = .error f) (by simp)]
  simp only [conclude_error_iff]
  rfl

/-- A cycle emits when both units succeed, the balances are told, and all of it can be
    computed. -/
theorem exists_emits_iff :
    (∃ m, verdict cfg node w = .ok (some m)) ↔
      ∃ b unclaimed head, basis? node w.memory = some b ∧ (reconcile cfg node.text).answer w = .ok unclaimed ∧
        (Beacon.head cfg).answer w = .ok head ∧
        b.Estimable ∧ ∃ balances, balancesAt cfg b head.epoch w = .ok balances ∧ b.Showable balances := by
  rw [verdict_iff (P := fun x => ∃ m, x = .ok (some m)) (by simp)]
  simp only [conclude_emits_iff]

theorem ends_collect_error_iff :
    (∃ f v, Ends (collect cfg node) w (.error f) v) ↔
      Ask.ready w.memory (.acquire .cycle) = true ∧ Fails cfg node w := by
  simp only [exists_ends_collect_iff, ← verdict_error_iff]
  constructor
  · intro h
    obtain ⟨f, hfree, hf⟩ := h
    exact ⟨hfree, f, hf.symm⟩
  · intro h
    obtain ⟨hfree, f, hf⟩ := h
    exact ⟨f, hfree, hf.symm⟩

/-! ## The faults of a scrape -/

variable {fmt : Exposition.Format}

/-- What a scrape does with the metrics of its cycle. -/
def present (fmt : Exposition.Format) (m : Option Metrics) : Job Service.Response :=
  ask (.display m) fun _ => ask .shown fun shown =>
    done ⟨fmt.contentType, Exposition.render fmt (Exposition.collect shown)⟩

theorem scrape_eq (fmt : Exposition.Format) (cfg : Settings) (node : Address) :
    Service.scrape fmt cfg node = withLock .scrape ((collect cfg node).bind (present fmt)) := rfl

theorem ends_scrape_error_iff :
    (∃ f v, Ends (Service.scrape fmt cfg node) w (.error f) v) ↔
      Ask.ready w.memory (.acquire .scrape) = true ∧ Ask.ready w.memory (.acquire .cycle) = true ∧
        Fails cfg node w := by
  have hinner : ∀ {f u v}, Ends ((collect cfg node).bind (present fmt)) u (.error f) v ↔
      Ends (collect cfg node) u (.error f) v := by
    intro f u v
    rw [ends_bind]
    constructor
    · intro h
      rcases h with ⟨m, u', -, h⟩ | ⟨f', hf, h⟩
      · cases (ends_done.mp (ends_ask.mp (ends_ask.mp h).2).2).1
      · cases hf
        exact h
    · intro h
      exact Or.inr ⟨f, rfl, h⟩
  have hfree : Ask.ready (w.after (.acquire .scrape)).memory (.acquire .cycle) =
      Ask.ready w.memory (.acquire .cycle) := by
    simp [Ask.ready, World.after, Ask.effect]
  have hfails : Fails cfg node (w.after (.acquire .scrape)) ↔ Fails cfg node w := by
    rw [← verdict_error_iff, ← verdict_error_iff, verdict_acquire]
  simp only [scrape_eq, ends_withLock, hinner]
  rw [← hfree, ← hfails, ← ends_collect_error_iff]
  constructor
  · intro h
    obtain ⟨f, v, hl, v', h, -⟩ := h
    exact ⟨hl, f, v', h⟩
  · intro h
    obtain ⟨hl, f, v', h⟩ := h
    exact ⟨f, _, hl, v', h, rfl⟩

/-- A cycle that can run is at fault exactly when both its units succeed and then an amount
    of the snapshot that it needs is none, or a balance, or the power of the inflation is
    not finite; and then the scrape it runs for is at fault, and only then. -/
theorem collect_error_iff (fmt : Exposition.Format) (cfg : Settings) (node : Address) (w : World) :
    ((∃ f v, Ends (collect cfg node) w (.error f) v) ↔
      Ask.ready w.memory (.acquire .cycle) = true ∧ Fails cfg node w) ∧
    ((∃ f v, Ends (Service.scrape fmt cfg node) w (.error f) v) ↔
      Ask.ready w.memory (.acquire .scrape) = true ∧ Ask.ready w.memory (.acquire .cycle) = true ∧
        Fails cfg node w) :=
  ⟨ends_collect_error_iff, ends_scrape_error_iff⟩

/-! ### A stake below zero -/

def owingNode : Address := Address.ofNat 0x3333333333333333333333333333333333333333

/-- A snapshot's file in which all is zero but the stake of the node, which is -1. -/
def owingFile : Text :=
  "\x7b\"network_details\": \x7b\"rpl_inflation_interval_rate\": 0, \"rpl_total_supply\": 0, " ++
    "\"interval_duration\": 0, \"node_operator_rewards_percent\": 0, \"rpl_price\": 0\x7d, " ++
    "\"node_details\": \x7b\"0x3333333333333333333333333333333333333333\": " ++
    "\x7b\"rpl_stake\": \"-1\", \"effective_rpl_stake\": 0\x7d\x7d, " ++
    "\"el_block_number\": 100, \"total_effective_rpl_stake\": 0\x7d"

def owingSnapshot : Snapshot where
  block := 100
  network := ⟨0, 0, 0, 0, 0⟩
  nodes := [(owingNode, ⟨-1, 0, 0, 0, 0, 0, 0⟩)]
  minipools := []
  validators := []

theorem owingFile_parse : (Json.ofBytes owingFile.toUtf8 >>= Snapshot.parse) = .ok (owingSnapshot, some 0) := by
  decide +kernel

theorem owing_verdict :
    verdict {} owingNode (quietWorld owingSnapshot (some 0)) = .error .amountOutOfRange := by
  rw [quietWorld_verdict]
  rfl

/-- A snapshot that was read and installed can be the fault of every cycle over it. -/
theorem parsed_snapshot_fails :
    ∃ document snapshot total, Snapshot.parse document = .ok (snapshot, total) ∧
      (∃ v, Ends (collect {} owingNode) (quietWorld snapshot total) (.error .amountOutOfRange) v) ∧
      ∀ fmt, ∃ f v, Ends (Service.scrape fmt {} owingNode) (quietWorld snapshot total) (.error f) v := by
  obtain ⟨document, -, hparse⟩ := except_bind_ok.mp owingFile_parse
  have hfails : Fails {} owingNode (quietWorld owingSnapshot (some 0)) := verdict_error_iff.mp ⟨_, owing_verdict⟩
  exact ⟨document, owingSnapshot, some 0, hparse, exists_ends_collect_iff.mpr ⟨rfl, owing_verdict.symm⟩,
    fun _ => ends_scrape_error_iff.mpr ⟨rfl, rfl, hfails⟩⟩

end NodeGauge.Cycle
