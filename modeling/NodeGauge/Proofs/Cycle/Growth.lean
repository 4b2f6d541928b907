/-
  NodeGauge.Proofs.Cycle.Growth — the ledger only grows. A conversion to ether gives no
  number below zero, and adding such a number makes no total smaller and none of them a
  NaN (`Double.add_spec`). That holds of a commit that fails between its two additions as
  well (`commit_grows`), so of a rewards unit and of a cycle wherever it stops
  (`collect_grows`), and of any number of cycles (`run_grows`): no total falls, no handled
  interval is forgotten, and each was below a reward index that one of the cycles read.
-/

import NodeGauge.Proofs.Cycle.Conservation
import NodeGauge.Proofs.Double.Sums
import NodeGauge.Proofs.Wei.Nearest

namespace NodeGauge.Rewards.Ledger

/-- Neither total is below zero, so neither is a NaN. -/
structure Sound (l : Ledger) : Prop where
  rpl : 0 ≤ l.rpl
  eth : 0 ≤ l.eth

/-- No total has fallen and no interval is forgotten. -/
structure Grows (l l' : Ledger) : Prop where
  rpl : l.rpl ≤ l'.rpl
  eth : l.eth ≤ l'.eth
  handled : ∀ i ∈ l.handled, i ∈ l'.handled

variable {l : Ledger}

theorem empty_sound : Sound .empty := ⟨Double.ofRatio_nonneg 0 1, Double.ofRatio_nonneg 0 1⟩

theorem Sound.grows_refl (h : l.Sound) : Grows l l :=
  ⟨Double.le_refl_of_nonneg h.rpl, Double.le_refl_of_nonneg h.eth, fun _ hi => hi⟩

/-- Whether it succeeds, fails at once or fails between its two additions. -/
theorem commit_grows (h : l.Sound) (infos : List IntervalInfo) (block : Int) :
    Grows l (l.commit infos block).1 ∧ (l.commit infos block).1.Sound := by
  have hkept := fun i (hi : i ∈ l.handled) => mem_handled_commit hi infos block
  obtain ⟨rpl, eth, hr, he, hc⟩ | ⟨rpl, _, hr, -, hc⟩ | ⟨_, -, hc⟩ := commit_cases l infos block <;> rw [hc] at hkept ⊢
  · obtain ⟨hrpl, hle, -⟩ := Double.add_spec h.rpl (Wei.toEther_nonneg hr)
    obtain ⟨heth, hle', -⟩ := Double.add_spec h.eth (Wei.toEther_nonneg he)
    exact ⟨⟨hle, hle', hkept⟩, ⟨hrpl, heth⟩⟩
  · obtain ⟨hrpl, hle, -⟩ := Double.add_spec h.rpl (Wei.toEther_nonneg hr)
    exact ⟨⟨hle, Double.le_refl_of_nonneg h.eth, hkept⟩, ⟨hrpl, h.eth⟩⟩
  · exact ⟨h.grows_refl, h⟩

end NodeGauge.Rewards.Ledger

namespace NodeGauge.Cycle

open Job
open NodeGauge.Rewards (reconcile)
open NodeGauge.Rewards.Ledger (Sound Grows)

variable {cfg : Settings} {node : Address} {w v : World}

/-! ## One cycle -/

theorem reconcile_grows (h : w.memory.ledger.Sound) :
    Grows w.memory.ledger ((reconcile cfg node.text).run w).2.memory.ledger ∧
      ((reconcile cfg node.text).run w).2.memory.ledger.Sound := by
  rcases Rewards.run_reconcile cfg node.text w with ⟨_, -, -, hl⟩ | ⟨f, -, -, hl⟩
  · rw [hl]
    exact ⟨h.grows_refl, h⟩
  · rw [hl]
    exact Rewards.Ledger.commit_grows h f.infos f.block

/-- However it ends and wherever it is given up. -/
theorem collect_grows (h : w.memory.ledger.Sound) (hc : Reaches (collect cfg node) w v) :
    Grows w.memory.ledger v.memory.ledger ∧ v.memory.ledger.Sound := by
  rcases reaches_collect hc with hl | hl
  · rw [hl]
    exact ⟨h.grows_refl, h⟩
  · rw [hl]
    exact reconcile_grows h

/-- The interval is below the reward index that is read in the world. -/
def Below (cfg : Settings) (i : Int) (w : World) : Prop :=
  ∃ n, (Chain.Client.rewardIndex cfg.network.storage).answer w = .ok n ∧ 0 ≤ i ∧ i < n

/-- What a cycle adds to the handled intervals is below the index it reads. -/
theorem collect_below (hc : Reaches (collect cfg node) w v) {i : Int} (hi : i ∈ v.memory.ledger.handled) :
    i ∈ w.memory.ledger.handled ∨ Below cfg i w := by
  rcases reaches_collect hc with hl | hl
  · rw [hl] at hi
    exact Or.inl hi
  · rw [hl] at hi
    rcases handled_of_reconcile hi with hi | ⟨n, block, h, hi⟩
    · exact Or.inl hi
    · obtain ⟨k, hk, -, rfl⟩ := Rewards.mem_claimed.mp (List.mem_filter.mp hi).1
      exact Or.inr ⟨n, h.index, by omega, by omega⟩

/-! ## Any number of cycles -/

/-- One cycle of many: the world it began in, and the one it ended or was given up in. -/
structure Turn where
  before : World
  after : World

/-- The cycles of one aggregator, the latest first, and the ledger behind them. Each finds
    the ledger as the one before left it; all else may have changed in between. -/
inductive Run (cfg : Settings) (node : Address) : List Turn → Rewards.Ledger → Prop where
  | start : Run cfg node [] .empty
  | next {turns : List Turn} {w v : World} (h : Run cfg node turns w.memory.ledger)
    (hc : Reaches (collect cfg node) w v) : Run cfg node (⟨w, v⟩ :: turns) v.memory.ledger

variable {turns : List Turn} {l : Rewards.Ledger}

theorem run_sound (h : Run cfg node turns l) : l.Sound := by
  induction h with
  | start => exact Rewards.Ledger.empty_sound
  | next _ hc ih => exact (collect_grows ih hc).2

/-- In every cycle neither total falls below what it was, none is negative or a NaN behind
    it, and what was handled stays so. What is handled behind all of them is below a
    reward index that one of them read. -/
theorem run_grows (h : Run cfg node turns l) :
    (∀ t ∈ turns,
      t.before.memory.ledger.rpl ≤ t.after.memory.ledger.rpl ∧ t.before.memory.ledger.eth ≤ t.after.memory.ledger.eth ∧
      0 ≤ t.after.memory.ledger.rpl ∧ t.after.memory.ledger.rpl.isNaN = false ∧
      0 ≤ t.after.memory.ledger.eth ∧ t.after.memory.ledger.eth.isNaN = false ∧
      ∀ i ∈ t.before.memory.ledger.handled, i ∈ t.after.memory.ledger.handled) ∧
    ∀ i ∈ l.handled, ∃ t ∈ turns, Below cfg i t.before := by
  induction h with
  | start =>
    constructor
    · intro t ht
      cases ht
    · intro i hi
      cases hi
  | @next turns w v h hc ih =>
    obtain ⟨hgrows, hsound⟩ := collect_grows (run_sound h) hc
    constructor
    · intro t ht
      rcases List.mem_cons.mp ht with rfl | ht
      · exact ⟨hgrows.rpl, hgrows.eth, hsound.rpl, Double.not_isNaN_of_nonneg hsound.rpl, hsound.eth,
          Double.not_isNaN_of_nonneg hsound.eth, hgrows.handled⟩
      · exact ih.1 t ht
    · intro i hi
      rcases collect_below hc hi with hi | hb
      · obtain ⟨t, ht, hb⟩ := ih.2 i hi
        exact ⟨t, List.mem_cons_of_mem _ ht, hb⟩
      · exact ⟨_, List.mem_cons_self .., hb⟩

/-! ### Two cycles of a node that is paid -/

def payee : Address := Address.ofNat 0x2222222222222222222222222222222222222222

/-- A tree by which the node is paid 3 RPL and 2 ETH. -/
def paidTree : Text :=
  "\x7b\"nodeRewards\": \x7b\"0x2222222222222222222222222222222222222222\": " ++
    "\x7b\"collateralRpl\": \"3000000000000000000\", \"smoothingPoolEth\": \"2000000000000000000\"\x7d\x7d\x7d"

def paidSnapshot : Snapshot where
  block := 100
  network := ⟨0, 0, 0, 0, 0⟩
  nodes := [(payee, ⟨0, 0, 0, 0, 0, 0, 0⟩)]
  minipools := []
  validators := []

/-- One interval has ended, it is claimed, and its tree is the above. -/
def paidWorld (beacon : Beacon.Endpoint → Nat → Beacon.Response) (rewardsPool : Option Address)
    (ledger : Rewards.Ledger) : World where
  outside := {
    chain := { latestBlock := .ok 100, read := fun _ _ _ => .ok (Chain.word 1) }
    beacon
    files := fun _ => .ok paidTree.toUtf8 }
  memory := { snapshot := some paidSnapshot, total := some 0, ledger, rewardsPool }

/-- The ledger once that interval is folded in. -/
def paidLedger : Rewards.Ledger where
  rpl := 3
  eth := 2
  handled := [0]
  nextBlock := some 101

section

variable (beacon : Beacon.Endpoint → Nat → Beacon.Response) (pool : Option Address)

theorem payee_text : payee.text = "0x2222222222222222222222222222222222222222" := by
  rw [Address.text_of_decimal (by decide)]
  decide +kernel

theorem paidWorld_steady (l : Rewards.Ledger) : Chain.Steady (paidWorld beacon pool l).outside.chain 1 :=
  ⟨⟨Chain.word 1, fun _ _ _ => rfl, by decide +kernel, Address.ofNat 1, by decide +kernel⟩⟩

theorem paidWorld_bitmap (l : Rewards.Ledger) (b : Nat) :
    Rewards.bitmapAt {} payee.text (paidWorld beacon pool l) b = .ok 1 :=
  (paidWorld_steady beacon pool l).claimedBitmap ..

theorem paidWorld_isClaimed (l : Rewards.Ledger) : Rewards.isClaimed {} payee.text (paidWorld beacon pool l) 0 = true :=
  Rewards.isClaimed_of_bitmap (paidWorld_bitmap beacon pool l 0) (by decide) (by decide)

theorem paidWorld_tree (l : Rewards.Ledger) :
    ∃ info, Rewards.treeInfo {} payee.text (paidWorld beacon pool l) 0 = some info ∧
      info.listed = true ∧ info.collateralRpl = 3 * 10 ^ 18 ∧ info.smoothingPoolEth = 2 * 10 ^ 18 := by
  have h : (Rewards.treeInfo {} payee.text (paidWorld (fun _ _ => .outage .connection) none .empty) 0).map
      (fun i => (i.listed, i.collateralRpl, i.smoothingPoolEth)) = some (true, 3 * 10 ^ 18, 2 * 10 ^ 18) := by
    rw [payee_text]
    decide +kernel
  have hfiles : (paidWorld (fun _ _ => .outage .connection) none .empty).outside.files =
      (paidWorld beacon pool l).outside.files := rfl
  rw [Rewards.treeInfo_congr {} payee.text hfiles] at h
  obtain ⟨info, hi, he⟩ := Option.map_eq_some_iff.mp h
  simp only [Prod.mk.injEq] at he
  exact ⟨info, hi, he⟩

theorem paidWorld_readable (l : Rewards.Ledger) : Rewards.Readable {} payee.text (paidWorld beacon pool l) 1 100 where
  index := (paidWorld_steady beacon pool l).rewardIndex _
  bitmaps := fun _ b _ => ⟨1, paidWorld_bitmap beacon pool l b⟩
  trees := by
    obtain ⟨info, hi, -⟩ := paidWorld_tree beacon pool l
    intro i h _
    have h0 : i = 0 := by omega
    subst h0
    exact Option.isSome_of_eq_some hi
  block := rfl

theorem paidWorld_split (l : Rewards.Ledger) :
    Rewards.split (Rewards.isClaimed {} payee.text (paidWorld beacon pool l)) 0 1 = ⟨[], [0]⟩ := by
  have hr : List.range' 0 1 = [0] := rfl
  unfold Rewards.split
  simp [hr, paidWorld_isClaimed]

/-- The first time the interval is folded in, and the second time nothing is. -/
theorem paidWorld_unit {l : Rewards.Ledger} (hl : l = .empty ∨ l = paidLedger) :
    (reconcile {} payee.text).answer (paidWorld beacon pool l) = .ok ⟨0, 0⟩ ∧
      ((reconcile {} payee.text).run (paidWorld beacon pool l)).2.memory.ledger = paidLedger := by
  obtain ⟨info, hi, hlisted, hrpl, heth⟩ := paidWorld_tree beacon pool l
  have hnamed : Rewards.named {} payee.text (paidWorld beacon pool l) [0] = [info] := by
    unfold Rewards.named
    rw [List.filterMap_cons_some hi]
    simp [hlisted]
  have hnone : Rewards.named {} payee.text (paidWorld beacon pool l) [] = [] := rfl
  have hz : Wei.toEther 0 = .ok 0 := by decide +kernel
  have hr : Wei.toEther (Rewards.rplOf [info]) = .ok 3 := by
    simp only [Rewards.rplOf, List.map_cons, List.map_nil, List.sum_cons, List.sum_nil, hrpl]
    decide +kernel
  have he : Wei.toEther (Rewards.ethOf [info]) = .ok 2 := by
    simp only [Rewards.ethOf, List.map_cons, List.map_nil, List.sum_cons, List.sum_nil, heth]
    decide +kernel
  refine (Rewards.reconcile_ok_ledger_iff _ _ _).mpr ⟨1, 100, paidWorld_readable beacon pool l, ?_⟩
  unfold Rewards.sums Rewards.unclaimed Rewards.due
  rw [paidWorld_split]
  have hm : (paidWorld beacon pool l).memory.ledger = l := rfl
  rw [hm]
  rcases hl with rfl | rfl
  · have hdue : List.filter (fun i => !Rewards.Ledger.empty.isHandled i) [(0 : Int)] = [0] := by decide
    have hplus : paidLedger = Rewards.Ledger.empty.plus 3 2 [0] 100 := by decide +kernel
    rw [hdue, hnamed]
    exact ⟨hz, hz, 3, 2, hr, he, hplus⟩
  · have hdue : List.filter (fun i => !paidLedger.isHandled i) [(0 : Int)] = [] := by decide
    have hplus : paidLedger = paidLedger.plus 0 0 [] 100 := by decide +kernel
    rw [hdue, hnone]
    exact ⟨hz, hz, 0, 0, hz, hz, hplus⟩

/-- However the beacon node answers. -/
theorem paidWorld_collect {l : Rewards.Ledger} (hl : l = .empty ∨ l = paidLedger) {x : Except Fault (Option Metrics)}
    (h : Ends (collect {} payee) (paidWorld beacon pool l) x v) : v.memory.ledger = paidLedger := by
  rcases ends_collect h with ⟨hnone, -⟩ | ⟨_, -, hv, -⟩
  · cases hnone
  · rw [hv, (paidWorld_unit beacon pool hl).2]

/-- A cycle that emits tells what the node was paid. -/
theorem paidWorld_tells {l : Rewards.Ledger} (hl : l = .empty ∨ l = paidLedger) {m : Metrics}
    (h : Ends (collect {} payee) (paidWorld beacon pool l) (.ok (some m)) v) :
    m.cumulativeRplRewards = 3 ∧ m.claimedEthRewards = 2 := by
  rcases ends_collect h with ⟨hnone, -⟩ | ⟨_, -, hv, he⟩
  · cases hnone
  · obtain ⟨_, -, ht⟩ := he m rfl
    rw [hv, (paidWorld_unit beacon pool hl).2] at ht
    exact ⟨ht.rpl, ht.eth⟩

end

/-- The beacon node is down in both cycles, and the first folds the interval in. -/
theorem run_grows_twice :
    ∃ first second, Run {} payee [second, first] paidLedger ∧
      first.before.memory.ledger = .empty ∧ first.after.memory.ledger = paidLedger ∧
      first.before.memory.ledger.rpl ≤ first.after.memory.ledger.rpl ∧
      second.before.memory.ledger.rpl ≤ second.after.memory.ledger.rpl ∧
      ∃ t ∈ [second, first], Below {} 0 t.before := by
  let down : Beacon.Endpoint → Nat → Beacon.Response := fun _ _ => .outage .connection
  obtain ⟨x, v, h⟩ := exists_ends_collect (w := paidWorld down none .empty) {} payee rfl
  obtain ⟨x', v', h'⟩ := exists_ends_collect (w := paidWorld down none paidLedger) {} payee rfl
  have hv : v.memory.ledger = paidLedger := paidWorld_collect down none (Or.inl rfl) h
  have hv' : v'.memory.ledger = paidLedger := paidWorld_collect down none (Or.inr rfl) h'
  have hfirst : Run {} payee [⟨paidWorld down none .empty, v⟩] (paidWorld down none paidLedger).memory.ledger := by
    rw [show (paidWorld down none paidLedger).memory.ledger = v.memory.ledger from hv.symm]
    exact .next .start h.reaches
  have hrun : Run {} payee [⟨paidWorld down none paidLedger, v'⟩, ⟨paidWorld down none .empty, v⟩] v'.memory.ledger :=
    .next hfirst h'.reaches
  rw [hv'] at hrun
  obtain ⟨hturns, hbelow⟩ := run_grows hrun
  exact ⟨_, _, hrun, rfl, hv, (hturns _ (by simp)).1, (hturns _ (by simp)).1, hbelow 0 (by decide)⟩

end NodeGauge.Cycle
