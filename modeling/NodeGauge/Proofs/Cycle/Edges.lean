/-
  NodeGauge.Proofs.Cycle.Edges — which of a cycle's metrics can leave the numbers that are
  not below zero. Amounts, their totals, the ledger and the collateral never do, and neither
  do the expected rewards and the return but for one case: the snapshot makes the RPL that
  is minted infinite, or the node's part of it, and what it is multiplied with is zero
  (`Basis.Clashes`). Exactly then the expected rewards are a NaN (`fields_nonneg_iff`).

  `parsed_snapshot_clashes`: such a snapshot can come from a file.
-/

import NodeGauge.Proofs.Cycle.Faults
import NodeGauge.Proofs.Cycle.Growth
import NodeGauge.Proofs.Metrics
import NodeGauge.Proofs.Snapshot.Reading

namespace NodeGauge.Cycle

open Job
open Metrics (Field)
open NodeGauge.Rewards (reconcile)

variable {b : Basis}

/-! ## The length of an interval -/

/-- The hours of an interval. -/
def Basis.hours (b : Basis) : Double := Double.ofInt b.snapshot.network.intervalSeconds / Rpl.secondsPerHour

section Interval

variable (h : b.snapshot.network.intervalSeconds.natAbs < 2 ^ 64)

include h

theorem days_isFinite : b.days.isFinite = true :=
  Double.isFinite_div (Double.isFinite_ofInt h) (by decide +kernel) (by decide +kernel)

theorem hours_isFinite : b.hours.isFinite = true :=
  Double.isFinite_div (Double.isFinite_ofInt h) (by decide +kernel) (by decide +kernel)

theorem hours_pos_iff : 0 < b.hours ↔ 0 < b.snapshot.network.intervalSeconds :=
  Double.ofInt_div_pos_iff h (by decide +kernel) (by decide +kernel)

end Interval

/-! ## What the snapshot alone tells -/

/-- The RPL minted for the interval leaves the range of the doubles and meets a zero. -/
def Basis.Clashes (b : Basis) : Prop :=
  ∃ rate supply issuance, Wei.toEther b.snapshot.network.inflationRate = .ok rate ∧
    Wei.toEther b.snapshot.network.rplSupply = .ok supply ∧ Rpl.issuance rate b.days supply = .ok issuance ∧
    Rpl.Clash b.node.effectiveRplStake b.totalEffective b.snapshot.network.rewardsPercent issuance

/-- The estimates are not below zero, but for two that a clash makes a NaN. -/
structure Edges (b : Basis) (e : Estimates) : Prop where
  staked : 0 ≤ e.staked
  effective : 0 ≤ e.effective
  collateral : 0 ≤ e.collateral
  shareSkimmed : 0 ≤ e.shareSkimmed
  refund : 0 ≤ e.refund
  distributable : 0 ≤ e.distributable
  rewards : 0 ≤ e.rewards ∧ ¬ b.Clashes ∨ e.rewards.isNaN = true ∧ b.Clashes
  apr : 0 ≤ e.apr ∧ ¬ (b.Clashes ∧ b.node.rplStake ≠ 0 ∧ 0 < b.snapshot.network.intervalSeconds) ∨
    e.apr.isNaN = true ∧ b.Clashes ∧ b.node.rplStake ≠ 0 ∧ 0 < b.snapshot.network.intervalSeconds

/-- Totals of amounts, three of each part. -/
theorem totals_nonneg {α : Type} {xs : List α} {p q r : α → Wei} {ys : List (Double × Double × Double)}
    (h : (xs.mapM fun x => do return (← Wei.toEther (p x), ← Wei.toEther (q x), ← Wei.toEther (r x))) = .ok ys) :
    0 ≤ Double.sum (ys.map (·.1)) ∧ 0 ≤ Double.sum (ys.map (·.2.1)) ∧ 0 ≤ Double.sum (ys.map (·.2.2)) := by
  have hall : ∀ y ∈ ys, 0 ≤ y.1 ∧ 0 ≤ y.2.1 ∧ 0 ≤ y.2.2 := by
    induction xs generalizing ys with
    | nil =>
      cases h
      simp
    | cons x xs ih =>
      obtain ⟨y, rest, hy, hrest, rfl⟩ := (Rewards.mapM_cons_ok_iff _ x xs ys).mp h
      rw [List.forall_mem_cons]
      refine ⟨?_, ih hrest⟩
      obtain ⟨_, hp, hy⟩ := except_bind_ok.mp hy
      obtain ⟨_, hq, hy⟩ := except_bind_ok.mp hy
      obtain ⟨_, hr, hy⟩ := except_bind_ok.mp hy
      cases hy
      exact ⟨Wei.toEther_nonneg hp, Wei.toEther_nonneg hq, Wei.toEther_nonneg hr⟩
  refine ⟨Double.sum_nonneg ?_, Double.sum_nonneg ?_, Double.sum_nonneg ?_⟩ <;> intro x hx <;>
    obtain ⟨y, hy, rfl⟩ := List.mem_map.mp hx
  · exact (hall y hy).1
  · exact (hall y hy).2.1
  · exact (hall y hy).2.2

theorem estimate_edges (h : b.snapshot.network.intervalSeconds.natAbs < 2 ^ 64) {e : Estimates}
    (he : estimate b = .ok e) : Edges b e := by
  unfold estimate at he
  obtain ⟨staked, hstaked, he⟩ := except_bind_ok.mp he
  obtain ⟨effective, heffective, he⟩ := except_bind_ok.mp he
  obtain ⟨rate, hrate, he⟩ := except_bind_ok.mp he
  obtain ⟨supply, hsupply, he⟩ := except_bind_ok.mp he
  obtain ⟨issuance, hissuance, he⟩ := except_bind_ok.mp he
  obtain ⟨totalEffective, htotal, he⟩ := except_bind_ok.mp he
  obtain ⟨percent, hpercent, he⟩ := except_bind_ok.mp he
  obtain ⟨price, hprice, he⟩ := except_bind_ok.mp he
  obtain ⟨skimmed, hskimmed, he⟩ := except_bind_ok.mp he
  cases he
  have hminted : 0 ≤ issuance :=
    Rpl.issuance_nonneg (Wei.toEther_isFinite hrate) (days_isFinite h) (Wei.toEther_isFinite hsupply) hissuance
  have hclashes : b.Clashes ↔
      Rpl.Clash b.node.effectiveRplStake b.totalEffective b.snapshot.network.rewardsPercent issuance := by
    unfold Basis.Clashes
    constructor
    · intro ⟨_, _, _, hrate', hsupply', hissuance', hclash⟩
      cases hrate.symm.trans hrate'
      cases hsupply.symm.trans hsupply'
      cases hissuance.symm.trans hissuance'
      exact hclash
    · intro hclash
      exact ⟨rate, supply, issuance, hrate, hsupply, hissuance, hclash⟩
  have hrewards := Rpl.estimatedRewards_cases heffective htotal hpercent hminted
  rw [← hclashes] at hrewards
  have hnan : (Rpl.estimatedRewards effective totalEffective issuance percent).isNaN = true ↔ b.Clashes := by
    rcases hrewards with ⟨hnonneg, hno⟩ | ⟨hnan, hclash⟩
    · simp [Double.not_isNaN_of_nonneg hnonneg, hno]
    · simp [hnan, hclash]
  obtain ⟨hshare, hrefund, hdistributable⟩ := totals_nonneg hskimmed
  refine ⟨Wei.toEther_nonneg hstaked, Wei.toEther_nonneg heffective, Rpl.collateralRatio_nonneg hprice hstaked _,
    hshare, hrefund, hdistributable, hrewards, ?_⟩
  have hapr := Rpl.apr_cases hstaked (hours_isFinite h) (hrewards.imp And.left And.left)
  rw [hnan, hours_pos_iff h] at hapr
  exact hapr

/-! ## The metrics -/

variable {e : Estimates} {unclaimed : Rewards.Unclaimed} {balances : List BalanceDetails} {l : Rewards.Ledger}
  {m : Metrics}

/-- All fields but the two that the estimates may spoil. -/
theorem metrics_nonneg (he : Edges b e) (hrpl : 0 ≤ unclaimed.rpl) (heth : 0 ≤ unclaimed.eth) (hl : l.Sound)
    (h : metrics b e unclaimed balances l = .ok m) :
    m.expectedRplRewards = e.rewards ∧ m.rplApr = e.apr ∧
      ∀ f : Field, f ≠ .expectedRplRewards → f ≠ .rplApr → 0 ≤ f.value m := by
  unfold metrics at h
  obtain ⟨ether, hether, h⟩ := except_bind_ok.mp h
  obtain ⟨_, hbalance, h⟩ := except_bind_ok.mp h
  obtain ⟨_, hold, h⟩ := except_bind_ok.mp h
  obtain ⟨_, hnew, h⟩ := except_bind_ok.mp h
  obtain ⟨_, hreth, h⟩ := except_bind_ok.mp h
  cases h
  obtain ⟨hdeposited, hshare, htotal⟩ := totals_nonneg hether
  refine ⟨rfl, rfl, fun f hrewards hapr => ?_⟩
  cases f with
  | totalStakedRpl => exact he.staked
  | effectiveStakedRpl => exact he.effective
  | rplCollateral => exact he.collateral
  | cumulativeRplRewards => exact hl.rpl
  | expectedRplRewards => exact absurd rfl hrewards
  | rplApr => exact absurd rfl hapr
  | ethBalance => exact Wei.toEther_nonneg hbalance
  | oldRplBalance => exact Wei.toEther_nonneg hold
  | newRplBalance => exact Wei.toEther_nonneg hnew
  | rethBalance => exact Wei.toEther_nonneg hreth
  | activeMinipoolCount => exact Double.ofRatio_nonneg _ 1
  | depositedEth => exact hdeposited
  | beaconShare => exact hshare
  | beaconBalance => exact htotal
  | unclaimedRplRewards => exact hrpl
  | claimedEthRewards => exact hl.eth
  | unclaimedEthRewards => exact heth
  | totalEthRewardsSkimmed => exact he.distributable
  | totalEthRewardsShareSkimmed => exact he.shareSkimmed
  | totalRefundEthSkimmed => exact he.refund

/-- A field is not below zero, or it is one that the clash makes a NaN. -/
theorem field_cases (he : Edges b e) (hrewards : m.expectedRplRewards = e.rewards) (hapr : m.rplApr = e.apr)
    (hrest : ∀ f : Field, f ≠ .expectedRplRewards → f ≠ .rplApr → 0 ≤ f.value m) (f : Field) :
    0 ≤ f.value m ∧ ¬ (b.Clashes ∧
      (f = .expectedRplRewards ∨ f = .rplApr ∧ b.node.rplStake ≠ 0 ∧ 0 < b.snapshot.network.intervalSeconds)) ∨
    (f.value m).isNaN = true ∧ b.Clashes ∧
      (f = .expectedRplRewards ∨ f = .rplApr ∧ b.node.rplStake ≠ 0 ∧ 0 < b.snapshot.network.intervalSeconds) := by
  by_cases hf : f = .expectedRplRewards
  · subst hf
    have hvalue : Field.expectedRplRewards.value m = e.rewards := hrewards
    simpa [hvalue] using he.rewards
  · by_cases hf' : f = .rplApr
    · subst hf'
      have hvalue : Field.rplApr.value m = e.apr := hapr
      simpa [hvalue] using he.apr
    · exact Or.inl ⟨hrest f hf hf', by simp [hf, hf']⟩

/-! ## The cycle -/

variable {cfg : Settings} {node : Address} {w v : World} {turns : List Turn}

/-- What metrics come from. -/
theorem exists_metrics_of_ends (h : Ends (collect cfg node) w (.ok (some m)) v) :
    ∃ b unclaimed e balances, basis? node w.memory = some b ∧ (reconcile cfg node.text).answer w = .ok unclaimed ∧
      estimate b = .ok e ∧
      metrics b e unclaimed balances ((reconcile cfg node.text).run w).2.memory.ledger = .ok m := by
  have hverdict : verdict cfg node w = .ok (some m) := (exists_ends_collect_iff.mp ⟨v, h⟩).2.symm
  obtain ⟨b, unclaimed, head, hb, hu, -, hc⟩ := (verdict_iff (P := (· = .ok (some m))) (by simp)).mp hverdict
  obtain ⟨e, he, ht⟩ := except_bind_ok.mp hc
  cases hbalances : balancesAt cfg b head.epoch w with
  | error f =>
    rw [hbalances] at ht
    cases ht
  | ok balances =>
    rw [hbalances] at ht
    cases hm : metrics b e unclaimed balances ((reconcile cfg node.text).run w).2.memory.ledger with
    | error f =>
      rw [told, hm] at ht
      cases ht
    | ok m' =>
      rw [told, hm] at ht
      cases ht
      exact ⟨b, unclaimed, e, balances, hb, hu, he, hm⟩

theorem snapshot_of_basis (h : basis? node w.memory = some b) : w.memory.snapshot = some b.snapshot := by
  unfold basis? at h
  simp only [Option.bind_eq_bind, Option.bind_eq_some_iff] at h
  obtain ⟨s, hs, _, -, _, -, h⟩ := h
  cases h
  exact hs

theorem unclaimed_nonneg (h : (reconcile cfg node.text).answer w = .ok unclaimed) :
    0 ≤ unclaimed.rpl ∧ 0 ≤ unclaimed.eth := by
  obtain ⟨_, _, -, hrpl, heth, -⟩ := (Rewards.reconcile_ok_ledger_iff w unclaimed _).mp ⟨h, rfl⟩
  exact ⟨Wei.toEther_nonneg hrpl, Wei.toEther_nonneg heth⟩

/-- Of the metrics of a cycle over a snapshot that was accepted no field is below zero, and
    none is a NaN unless the snapshot makes the rewards an infinity times zero. There the
    expected rewards are a NaN, and with them the return of a stake over an interval above
    zero. -/
theorem fields_nonneg_iff {document : Json} {snapshot : Snapshot} {total : Option Wei}
    (hrun : Run cfg node turns w.memory.ledger) (hparse : Snapshot.parse document = .ok (snapshot, total))
    (hinstalled : w.memory.snapshot = some snapshot) (h : Ends (collect cfg node) w (.ok (some m)) v) :
    ∃ b, basis? node w.memory = some b ∧
      ((∀ f : Field, (f.value m).isNaN = false ∧ ¬ f.value m < 0) ↔ ¬ b.Clashes) ∧
      (∀ f : Field, ¬ f.value m < 0) ∧
      ∀ f : Field, (f.value m).isNaN = true ↔ b.Clashes ∧
        (f = .expectedRplRewards ∨ f = .rplApr ∧ b.node.rplStake ≠ 0 ∧ 0 < snapshot.network.intervalSeconds) := by
  obtain ⟨b, unclaimed, e, balances, hb, hu, he, hm⟩ := exists_metrics_of_ends h
  have hsnapshot : b.snapshot = snapshot := Option.some.inj ((snapshot_of_basis hb).symm.trans hinstalled)
  obtain ⟨hlow, hhigh⟩ := Snapshot.intervalSeconds_bound hparse
  have hseconds : b.snapshot.network.intervalSeconds.natAbs < 2 ^ 64 := by
    rw [hsnapshot]
    unfold Snapshot.maxDays at hlow hhigh
    omega
  have hedges := estimate_edges hseconds he
  -- the metrics show the ledger as the cycle leaves it
  have hledger : ((reconcile cfg node.text).run w).2.memory.ledger.Sound := (reconcile_grows (run_sound hrun)).2
  obtain ⟨hrpl, heth⟩ := unclaimed_nonneg hu
  obtain ⟨hrewards, hapr, hrest⟩ := metrics_nonneg hedges hrpl heth hledger hm
  have hfield := field_cases hedges hrewards hapr hrest
  rw [hsnapshot] at hfield
  have hnan : ∀ f : Field, (f.value m).isNaN = true ↔ b.Clashes ∧
      (f = .expectedRplRewards ∨ f = .rplApr ∧ b.node.rplStake ≠ 0 ∧ 0 < snapshot.network.intervalSeconds) := by
    intro f
    rcases hfield f with ⟨hnonneg, hno⟩ | ⟨hisnan, hclash⟩
    · simp [Double.not_isNaN_of_nonneg hnonneg, hno]
    · exact ⟨fun _ => hclash, fun _ => hisnan⟩
  have hlt : ∀ f : Field, ¬ f.value m < 0 := by
    intro f
    rcases hfield f with ⟨hnonneg, -⟩ | ⟨hisnan, -⟩
    · exact Double.not_lt_zero_of_nonneg hnonneg
    · exact Double.not_lt_of_isNaN hisnan
  refine ⟨b, hb, ?_, hlt, hnan⟩
  constructor
  · intro hall hclash
    have hrewards := (hnan .expectedRplRewards).mpr ⟨hclash, Or.inl rfl⟩
    rw [(hall .expectedRplRewards).1] at hrewards
    cases hrewards
  · intro hno f
    refine ⟨?_, hlt f⟩
    rw [← Bool.not_eq_true, hnan f]
    exact fun h => hno h.1

/-! ### An infinity times zero -/

/-- A snapshot's file in which the RPL minted in 30 days is past every double and the node
    has a stake of which nothing is effective. -/
def clashingFile : Text :=
  "\x7b\"network_details\": \x7b\"rpl_inflation_interval_rate\": \"10000000000000000000000000000\", " ++
    "\"rpl_total_supply\": \"1000000000000000000000000000000000000\", \"interval_duration\": 2592000, " ++
    "\"node_operator_rewards_percent\": \"700000000000000000\", \"rpl_price\": \"10000000000000000\"\x7d, " ++
    "\"node_details\": \x7b\"0x3333333333333333333333333333333333333333\": " ++
    "\x7b\"rpl_stake\": \"1000000000000000000\", \"effective_rpl_stake\": 0\x7d\x7d, " ++
    "\"el_block_number\": 100, \"total_effective_rpl_stake\": \"1000000000000000000\"\x7d"

def clashingSnapshot : Snapshot where
  block := 100
  network := ⟨10 ^ 28, 10 ^ 36, 2592000, 7 * 10 ^ 17, 10 ^ 16⟩
  nodes := [(owingNode, ⟨10 ^ 18, 0, 0, 0, 0, 0, 0⟩)]
  minipools := []
  validators := []

def clashingWorld : World := quietWorld clashingSnapshot (some (10 ^ 18))

/-- A stake of 1 RPL; all else is zero or no number. -/
def clashingMetrics : Metrics where
  totalStakedRpl := 1
  effectiveStakedRpl := 0
  rplCollateral := 0
  cumulativeRplRewards := 0
  expectedRplRewards := .nan
  rplApr := .nan
  ethBalance := 0
  oldRplBalance := 0
  newRplBalance := 0
  rethBalance := 0
  activeMinipoolCount := 0
  depositedEth := 0
  beaconShare := 0
  beaconBalance := 0
  unclaimedRplRewards := 0
  claimedEthRewards := 0
  unclaimedEthRewards := 0
  totalEthRewardsSkimmed := 0
  totalEthRewardsShareSkimmed := 0
  totalRefundEthSkimmed := 0

theorem clashingFile_parse :
    (Json.ofBytes clashingFile.toUtf8 >>= Snapshot.parse) = .ok (clashingSnapshot, some (10 ^ 18)) := by
  decide +kernel

def clashingBasis : Basis := ⟨clashingSnapshot, 10 ^ 18, ⟨10 ^ 18, 0, 0, 0, 0, 0, 0⟩, []⟩

theorem clashingWorld_basis : basis? owingNode clashingWorld.memory = some clashingBasis := by
  decide +kernel

theorem clashing_estimate : ∃ e, estimate clashingBasis = .ok e ∧
    metrics clashingBasis e ⟨0, 0⟩ [] quietLedger = .ok clashingMetrics := by
  refine ⟨⟨1, 0, 0, .nan, .nan, 0, 0, 0⟩, ?_, ?_⟩ <;> decide +kernel

theorem clashingWorld_ends : ∃ v, Ends (collect {} owingNode) clashingWorld (.ok (some clashingMetrics)) v := by
  refine exists_ends_collect_iff.mpr ⟨rfl, ?_⟩
  obtain ⟨e, he, hm⟩ := clashing_estimate
  have hbalances : balancesAt {} clashingBasis Beacon.fineHead.epoch clashingWorld = .ok [] := balancesAt_nil rfl _
  have hconclude : conclude {} clashingBasis clashingWorld quietLedger (.ok ⟨0, 0⟩, .ok Beacon.fineHead) =
      .ok (some clashingMetrics) := by
    simp only [conclude, he, hbalances]
    show told clashingBasis e ⟨0, 0⟩ quietLedger (.ok []) = _
    simp only [told, hm]
    rfl
  have hverdict := quietWorld_verdict clashingSnapshot (some (10 ^ 18)) owingNode
  rw [← clashingWorld, clashingWorld_basis] at hverdict
  exact hconclude.symm.trans hverdict.symm

/-- What is a NaN there comes of the clash. -/
theorem fields_nonneg_iff_clashing :
    Run {} owingNode [] clashingWorld.memory.ledger ∧
    (∃ document, Snapshot.parse document = .ok (clashingSnapshot, some (10 ^ 18))) ∧
    (∃ v, Ends (collect {} owingNode) clashingWorld (.ok (some clashingMetrics)) v) ∧
    ∃ b, basis? owingNode clashingWorld.memory = some b ∧ b.Clashes ∧ ∀ f : Field, ¬ f.value clashingMetrics < 0 := by
  obtain ⟨document, -, hparse⟩ := except_bind_ok.mp clashingFile_parse
  obtain ⟨v, hends⟩ := clashingWorld_ends
  obtain ⟨b, hb, -, hlt, hnan⟩ := fields_nonneg_iff .start hparse rfl hends
  exact ⟨.start, ⟨document, hparse⟩, ⟨v, hends⟩, b, hb, ((hnan .expectedRplRewards).mp rfl).1, hlt⟩

/-- A snapshot that was read and installed can bring the cycle to metrics that hold a NaN. -/
theorem parsed_snapshot_clashes :
    ∃ document snapshot total m, Snapshot.parse document = .ok (snapshot, total) ∧
      (∃ v, Ends (collect {} owingNode) (quietWorld snapshot total) (.ok (some m)) v) ∧
      m.expectedRplRewards.isNaN = true ∧ m.rplApr.isNaN = true := by
  obtain ⟨document, -, hparse⟩ := except_bind_ok.mp clashingFile_parse
  exact ⟨document, clashingSnapshot, some (10 ^ 18), clashingMetrics, hparse, clashingWorld_ends, rfl, rfl⟩

end NodeGauge.Cycle
