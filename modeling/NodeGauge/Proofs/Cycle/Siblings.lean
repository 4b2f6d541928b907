/-
  NodeGauge.Proofs.Cycle.Siblings — what runs beside the rewards unit and after it does not
  touch the ledger. The unit asks neither the beacon node nor a minipool for a share, so
  worlds that differ in their answers are one to it (`Kin`), whatever fails there.

  A unit that succeeded and runs again, over the same chain and the same files, finds
  nothing due (`reconcile_again`). So a cycle that failed beside its rewards unit loses
  nothing and repeats nothing: the next one that succeeds emits the totals it left
  (`siblings_leave_ledger`).
-/

import NodeGauge.Proofs.Cycle.Faults
import NodeGauge.Proofs.Cycle.Growth

namespace NodeGauge.Cycle

open Job
open NodeGauge.Chain (Client.rewardIndex Client.rewardsPool)
open NodeGauge.Rewards (AsksShare Looks Readable reconcile bitmapAt isClaimed treeInfo due)

variable {w v : World} {cfg : Settings} {node : Address}

/-! ## Worlds that are one to the rewards unit -/

/-- The files and the chain are the same but for the shares of balances. -/
structure Facing (w v : World) : Prop where
  files : v.outside.files = w.outside.files
  block : v.outside.chain.latestBlock = w.outside.chain.latestBlock
  read : ∀ contract data tag, ¬ AsksShare data →
    v.outside.chain.read contract data tag = w.outside.chain.read contract data tag

/-- So are the ledger and the contract that pays the rewards. -/
structure Kin (w v : World) : Prop extends Facing w v where
  ledger : v.memory.ledger = w.memory.ledger
  pool : v.memory.rewardsPool = w.memory.rewardsPool

theorem Facing.trans {u : World} (h : Facing w v) (h' : Facing v u) : Facing w u :=
  ⟨h'.files.trans h.files, h'.block.trans h.block, fun c d t hd => (h'.read c d t hd).trans (h.read c d t hd)⟩

theorem Facing.symm (h : Facing w v) : Facing v w :=
  ⟨h.files.symm, h.block.symm, fun c d t hd => (h.read c d t hd).symm⟩

theorem facing_of_eq (h : v.outside = w.outside) : Facing w v := by
  refine ⟨?_, ?_, fun _ _ _ _ => ?_⟩ <;> rw [h]

theorem Kin.after (h : Kin w v) (q : Ask) : Kin (w.after q) (v.after q) := by
  obtain ⟨hf, hl, hp⟩ := h
  have hf' : Facing (w.after q) (v.after q) := ⟨hf.files, hf.block, hf.read⟩
  cases q with
  | commit infos block => exact ⟨hf', by simp only [World.after, Ask.effect, hl], hp⟩
  | keepRewardsPool a => exact ⟨hf', hl, rfl⟩
  | _ => exact ⟨hf', hl, hp⟩

theorem Kin.reply {q : Ask} (hq : Settles q) (h : Kin w v) : q.reply w = q.reply v := by
  obtain ⟨hf, hl, hp⟩ := h
  cases q with
  | call c =>
    cases c with
    | latestBlock => exact hf.block.symm
    | read contract data tag => exact (hf.read contract data tag hq).symm
  | file path => simp only [Ask.reply, hf.files]
  | ledger => exact hl.symm
  | commit infos block => simp only [Ask.reply, hl]
  | rewardsPool => exact hp.symm
  | keepRewardsPool a => rfl
  | _ => exact hq.elim

/-- The unit comes to the same in both, and leaves worlds that are one to it again. -/
theorem Kin.reconcile (h : Kin w v) (cfg : Settings) (node : Text) :
    (reconcile cfg node).answer w = (reconcile cfg node).answer v ∧
      Kin ((reconcile cfg node).run w).2 ((reconcile cfg node).run v).2 :=
  run_congr (R := Kin) (fun q _ _ hq h => ⟨h.reply hq, h.after q⟩) (reconcile_straight cfg node).uses h

/-! ## What the unit reads again -/

/-- Reads of the chain that are for no share. -/
def Reads : Ask → Prop
  | .call .latestBlock => True
  | .call (.read _ data _) => ¬ AsksShare data
  | _ => False

theorem Facing.answer {α : Type} {j : Job α} (hj : j.Uses Reads) (h : Facing w v) : j.answer v = j.answer w := by
  refine (run_congr (R := fun v w => Facing w v) (fun q v w hq h => ?_) hj h).1
  cases q with
  | call c =>
    refine ⟨?_, ⟨h.files, h.block, h.read⟩⟩
    cases c with
    | latestBlock => exact h.block
    | read contract data tag => exact h.read contract data tag hq
  | _ => exact hq.elim

theorem Facing.bitmapAt (h : Facing w v) (cfg : Settings) (node : Text) (b : Nat) :
    bitmapAt cfg node v b = bitmapAt cfg node w b :=
  h.answer (straight_bind (straight_ofExcept _) fun _ =>
    Rewards.numberOf_straight (Rewards.not_asksShare_getUint _)).uses

theorem Facing.isClaimed (h : Facing w v) (cfg : Settings) (node : Text) :
    isClaimed cfg node v = isClaimed cfg node w := by
  funext i
  unfold Rewards.isClaimed
  rw [h.bitmapAt]

theorem Facing.latestBlock (h : Facing w v) :
    Chain.Client.latestBlock.answer v = Chain.Client.latestBlock.answer w :=
  h.answer (Rewards.latestBlock_straight trivial).uses

/-! ## The contract that pays the rewards -/

/-- Asks that leave that contract as it was kept. -/
def LeavesPool (q : Ask) : Prop := ∀ m, (q.effect m).rewardsPool = m.rewardsPool

theorem leavesPool_of_looks (q : Ask) (h : Looks q) : LeavesPool q := by
  intro m
  cases q <;> first | rfl | exact h.elim

/-- Finds the contract on the chain. -/
def findPool (storage : Address) : Job Address :=
  (Chain.Client.bytesOf storage (Chain.getAddress Chain.rewardsPoolKey) .latest).bind fun bytes =>
    ofExcept (Chain.decodeAddress bytes)

/-- The contract that is kept, or one that is found and then kept. -/
def poolOr (storage : Address) : Option Address → Job Address
  | some a => done a
  | none => (findPool storage).bind fun a => ask (.keepRewardsPool a) fun _ => done a

theorem rewardsPool_eq (storage : Address) : Client.rewardsPool storage = ask .rewardsPool (poolOr storage) := by
  show ask Ask.rewardsPool _ = _
  congr 1
  funext kept
  cases kept with
  | some a => rfl
  | none => exact (bind_assoc _ _ _).symm

theorem rewardsPool_of_kept {storage a : Address} (h : w.memory.rewardsPool = some a) :
    (Client.rewardsPool storage).answer w = .ok a := by
  rw [rewardsPool_eq]
  show ((poolOr storage w.memory.rewardsPool).run _).1 = .ok a
  rw [h]
  rfl

/-- Once it is found it is kept. -/
theorem rewardsPool_keeps {storage a : Address} (h : (Client.rewardsPool storage).answer w = .ok a) :
    ((Client.rewardsPool storage).run w).2.memory.rewardsPool = some a := by
  rw [rewardsPool_eq] at h ⊢
  change ((poolOr storage w.memory.rewardsPool).run (w.after .rewardsPool)).1 = .ok a at h
  show ((poolOr storage w.memory.rewardsPool).run (w.after .rewardsPool)).2.memory.rewardsPool = some a
  cases hkept : w.memory.rewardsPool with
  | some kept =>
    rw [hkept] at h
    cases h
    exact hkept
  | none =>
    rw [hkept] at h
    unfold poolOr at h ⊢
    rw [run_bind] at h ⊢
    generalize (findPool storage).run (w.after .rewardsPool) = r at h ⊢
    obtain ⟨x, u⟩ := r
    cases x with
    | error e => cases h
    | ok b =>
      cases h
      rfl

/-- The unit once it has the contract. -/
def withPool (cfg : Settings) (node : Text) (pool : Address) : Job Rewards.Unclaimed :=
  (Chain.Client.numberOf pool Chain.getRewardIndex .latest).bind fun index =>
    (if index = 0 then pure .empty else Rewards.claimsFrom cfg node index (index / Rewards.bucketSize + 1) 0 :
      Job Rewards.ClaimStatus).bind fun status => (Rewards.gatherFrom cfg node status).bind Rewards.settle

theorem reconcile_eq_withPool (cfg : Settings) (node : Text) :
    reconcile cfg node = (Client.rewardsPool cfg.network.storage).bind (withPool cfg node) := by
  rw [Rewards.reconcile_eq]
  show (((Client.rewardsPool cfg.network.storage).bind fun pool =>
    Chain.Client.numberOf pool Chain.getRewardIndex .latest).bind _ |>.bind (Rewards.gatherFrom cfg node)).bind
      Rewards.settle = _
  simp only [bind_assoc]
  rfl

theorem withPool_leavesPool (cfg : Settings) (node : Text) (pool : Address) :
    (withPool cfg node pool).Uses LeavesPool := by
  refine uses_bind ((Rewards.rewardIndex_rest_looks pool).mono leavesPool_of_looks).uses fun index => ?_
  refine uses_bind ((Rewards.claimStatus_rest_looks cfg node index).mono leavesPool_of_looks).uses fun status => ?_
  refine uses_bind ((Rewards.gatherFrom_looks cfg node status).mono leavesPool_of_looks).uses fun f => ?_
  refine uses_bind (uses_send fun m => rfl) fun r => uses_bind (uses_ofExcept r) fun _ => ?_
  exact uses_bind (uses_ofExcept _) fun _ => uses_bind (uses_ofExcept _) fun _ => trivial

/-- Behind a unit that has found the contract it is kept. -/
theorem reconcile_keeps {node : Text} {a : Address} (h : (Client.rewardsPool cfg.network.storage).answer w = .ok a) :
    ((reconcile cfg node).run w).2.memory.rewardsPool = some a := by
  have hkept := rewardsPool_keeps h
  rw [reconcile_eq_withPool, run_bind]
  unfold answer at h
  generalize (Client.rewardsPool cfg.network.storage).run w = r at h hkept ⊢
  obtain ⟨x, u⟩ := r
  cases h
  exact run_keeps (I := fun u => u.memory.rewardsPool = some a) (fun q u hq hu => (hq u.memory).trans hu)
    (withPool_leavesPool cfg node a) hkept

theorem rewardIndex_ok_iff {storage : Address} {n : Nat} :
    (Client.rewardIndex storage).answer w = .ok n ↔ ∃ a, (Client.rewardsPool storage).answer w = .ok a ∧
      (Chain.Client.numberOf a Chain.getRewardIndex .latest).answer w = .ok n :=
  Rewards.answer_bind_ok (Rewards.rewardsPool_seeks storage) Rewards.rewardIndex_rest_looks

/-! ## The unit again -/

theorem zero_ether {x : Double} (h : Wei.toEther 0 = .ok x) : x = 0 := by
  have hz : Wei.toEther 0 = .ok 0 := by decide +kernel
  exact (Except.ok.inj (hz.symm.trans h)).symm

theorem add_ether_ne {x y : Double} {v : Wei} (h : Wei.toEther v = .ok y) : x + y ≠ Double.zero true := by
  rw [(Wei.toEther_ok_iff.mp h).2]
  exact Double.add_ne_negZero _ _ _

/-- A unit that succeeded finds nothing due when it runs again, though the shares, the
    beacon node and the snapshot may have changed: it leaves the ledger as it is. -/
theorem reconcile_again {node : Text} {u u' : Rewards.Unclaimed} (h : (reconcile cfg node).answer w = .ok u)
    (hkin : Kin ((reconcile cfg node).run w).2 v) (h' : (reconcile cfg node).answer v = .ok u') :
    ((reconcile cfg node).run v).2.memory.ledger = v.memory.ledger := by
  obtain ⟨n, block, hread, -, -, rpl, eth, hrpl, heth, hl⟩ := (Rewards.reconcile_ok_ledger_iff w u _).mp ⟨h, rfl⟩
  obtain ⟨n', block', hread', -, -, rpl', eth', hrpl', heth', hl'⟩ :=
    (Rewards.reconcile_ok_ledger_iff v u' _).mp ⟨h', rfl⟩
  have hface : Facing w v := (facing_of_eq (run_outside _ w)).trans hkin.toFacing
  have hledger : v.memory.ledger = w.memory.ledger.plus rpl eth (due cfg node w n) block := hkin.ledger.trans hl
  obtain rfl : n' = n := by
    obtain ⟨a, ha, hn⟩ := rewardIndex_ok_iff.mp hread.index
    have hpool : (Client.rewardsPool cfg.network.storage).answer v = .ok a :=
      rewardsPool_of_kept (hkin.pool.trans (reconcile_keeps ha))
    have hindex := rewardIndex_ok_iff.mpr ⟨a, hpool,
      (hface.answer (Rewards.numberOf_straight Rewards.not_asksShare_getRewardIndex).uses).trans hn⟩
    exact Except.ok.inj (hread'.index.symm.trans hindex)
  obtain rfl : block' = block := Except.ok.inj (hread'.block.symm.trans (hface.latestBlock.trans hread.block))
  have hdue : due cfg node v n' = [] := by
    unfold Rewards.due
    rw [List.filter_eq_nil_iff, hface.isClaimed]
    intro i hi
    have hmem := Rewards.mem_handled_due.mpr (Or.inr (Rewards.mem_claimed.mp hi))
    rw [hledger]
    simpa only [Rewards.Ledger.isHandled, Rewards.Ledger.plus, Bool.not_eq_true', Bool.not_eq_false,
      List.contains_iff_mem] using hmem
  obtain ⟨hnorpl, hnoeth⟩ := Rewards.sums_of_due_nil hdue
  rw [hnorpl] at hrpl'
  rw [hnoeth] at heth'
  rw [hl', hdue, zero_ether hrpl', zero_ether heth', hledger]
  unfold Rewards.Ledger.plus
  rw [Double.add_zero_eq (add_ether_ne hrpl), Double.add_zero_eq (add_ether_ne heth), List.append_nil]

/-! ## Cycles beside and after -/

/-- Of two cycles whose worlds differ at most in what the beacon node answers, in the shares
    and in the snapshot, each leaves the ledger that the rewards unit alone would leave, in
    whatever order their units take turns and however they end. If the unit succeeded, then
    the next cycle over the same chain and files that succeeds emits the totals of that
    ledger and leaves it as it is. -/
theorem siblings_leave_ledger {w' v' : World} {b b' : Basis} {x x' : Except Fault (Option Metrics)}
    (hready : basis? node w.memory = some b) (hready' : basis? node w'.memory = some b') (hkin : Kin w w')
    (h : Ends (collect cfg node) w x v) (h' : Ends (collect cfg node) w' x' v') :
    v.memory.ledger = ((reconcile cfg node.text).run w).2.memory.ledger ∧
      v'.memory.ledger = v.memory.ledger ∧
      ∀ u, (reconcile cfg node.text).answer w = .ok u → ∀ w₁ v₁ m, Kin v w₁ →
        Ends (collect cfg node) w₁ (.ok (some m)) v₁ →
          m.cumulativeRplRewards = v.memory.ledger.rpl ∧ m.claimedEthRewards = v.memory.ledger.eth ∧
            v₁.memory.ledger = v.memory.ledger := by
  have hleft : ∀ {w v : World} {b : Basis} {x : Except Fault (Option Metrics)}, basis? node w.memory = some b →
      Ends (collect cfg node) w x v → Same ((reconcile cfg node.text).run w).2 v := by
    intro w v b x hb h
    rcases ends_collect_same h with ⟨hnone, -⟩ | ⟨_, -, hv, -⟩
    · cases hnone.symm.trans hb
    · exact hv
  have hv := hleft hready h
  have hv' := hleft hready' h'
  refine ⟨hv.ledger, ?_, fun u hu w₁ v₁ m hkin₁ h₁ => ?_⟩
  · rw [hv'.ledger, hv.ledger]
    exact (hkin.reconcile cfg node.text).2.ledger
  · rcases ends_collect h₁ with ⟨-, hx, -⟩ | ⟨_, -, hv₁, he⟩
    · cases hx
    · obtain ⟨u₁, hu₁, ht⟩ := he m rfl
      have hnext : Kin ((reconcile cfg node.text).run w).2 w₁ :=
        ⟨(facing_of_eq hv.outside).trans hkin₁.toFacing, hkin₁.ledger.trans hv.ledger, hkin₁.pool.trans hv.pool⟩
      have hsame : v₁.memory.ledger = v.memory.ledger :=
        hv₁.trans ((reconcile_again hu hnext hu₁).trans hkin₁.ledger)
      rw [← hsame]
      exact ⟨ht.rpl, ht.eth, rfl⟩

/-! ### A beacon node that fails, and then does not -/

theorem paidWorld_emits (pool : Option Address) {l : Rewards.Ledger} (hl : l = .empty ∨ l = paidLedger) :
    ∃ m, verdict {} payee (paidWorld Beacon.fineBeacon pool l) = .ok (some m) := by
  have hz : Wei.IsAmount 0 := ⟨by decide, by decide⟩
  refine exists_emits_iff.mpr ⟨_, _, _, rfl, (paidWorld_unit _ pool hl).1, Beacon.fineBeacon_head rfl,
    ⟨hz, hz, hz, hz, hz, hz, hz, fun _ hm => (List.not_mem_nil hm).elim, fun rate hr _ _ => ?_⟩, [],
    balancesAt_nil rfl _,
    ⟨fun d hd => (List.not_mem_nil hd).elim, hz, hz, hz, hz⟩⟩
  rw [zero_ether hr]
  decide +kernel

def paidBasis : Basis := ⟨paidSnapshot, 0, ⟨0, 0, 0, 0, 0, 0, 0⟩, []⟩

theorem paidWorld_basis (beacon : Beacon.Endpoint → Nat → Beacon.Response) (pool : Option Address)
    (l : Rewards.Ledger) : basis? payee (paidWorld beacon pool l).memory = some paidBasis := rfl

def downBeacon : Beacon.Endpoint → Nat → Beacon.Response := fun _ _ => .outage .system

theorem downBeacon_fetched (h : w.outside.beacon = downBeacon) (e : Beacon.Endpoint) :
    Beacon.fetched {} w e = .error (.outage .system) := by
  unfold Beacon.fetched
  rw [Beacon.fetch_answer (by rw [h]; rfl), h]
  rfl

/-- Whichever request is the first to fail. -/
theorem ends_downBeacon {x : Except Fault Beacon.Head} (h : w.outside.beacon = downBeacon)
    (hends : Ends (Beacon.head {}) w x v) : x = .error (.outage .system) := by
  obtain ⟨y, hy, rfl⟩ := Beacon.ends_head {} hends
  rw [downBeacon_fetched h, downBeacon_fetched h] at hy
  cases hy <;> rfl

theorem downBeacon_head (h : w.outside.beacon = downBeacon) : (Beacon.head {}).answer w = .error (.outage .system) := by
  rw [Beacon.head_answer, downBeacon_fetched h, downBeacon_fetched h]
  rfl

theorem paidWorld_down : verdict {} payee (paidWorld downBeacon none .empty) = .ok none := by
  unfold verdict
  rw [paidWorld_basis, verdictOn, (paidWorld_unit downBeacon none (Or.inl rfl)).1, downBeacon_head rfl]
  rfl

/-- The beacon node fails one cycle and not the other, both fold the interval in, and the
    cycle after the failed one emits it. -/
theorem paid_siblings :
    ∃ v x' v', Ends (collect {} payee) (paidWorld downBeacon none .empty) (.ok none) v ∧
      Ends (collect {} payee) (paidWorld Beacon.fineBeacon none .empty) x' v' ∧
      v.memory.ledger = paidLedger ∧ v'.memory.ledger = paidLedger ∧
      ∃ m v₁, Ends (collect {} payee) (paidWorld Beacon.fineBeacon v.memory.rewardsPool paidLedger) (.ok (some m)) v₁ ∧
        m.cumulativeRplRewards = 3 ∧ m.claimedEthRewards = 2 ∧ v₁.memory.ledger = paidLedger := by
  obtain ⟨v, h⟩ := (exists_ends_collect_iff (w := paidWorld downBeacon none .empty)).mpr ⟨rfl, paidWorld_down.symm⟩
  obtain ⟨x', v', h'⟩ := exists_ends_collect (w := paidWorld Beacon.fineBeacon none .empty) {} payee rfl
  have hv : v.memory.ledger = paidLedger := paidWorld_collect downBeacon none (Or.inl rfl) h
  have hunit := (paidWorld_unit downBeacon none (Or.inl rfl)).1
  have hkin : Kin (paidWorld downBeacon none .empty) (paidWorld Beacon.fineBeacon none .empty) :=
    ⟨⟨rfl, rfl, fun _ _ _ _ => rfl⟩, rfl, rfl⟩
  obtain ⟨m, hm⟩ := paidWorld_emits v.memory.rewardsPool (Or.inr rfl)
  obtain ⟨v₁, h₁⟩ := (exists_ends_collect_iff (w := paidWorld Beacon.fineBeacon v.memory.rewardsPool paidLedger)).mpr
    ⟨rfl, hm.symm⟩
  have hnext : Kin v (paidWorld Beacon.fineBeacon v.memory.rewardsPool paidLedger) :=
    ⟨(facing_of_eq h.outside).symm.trans ⟨rfl, rfl, fun _ _ _ _ => rfl⟩, hv.symm, rfl⟩
  obtain ⟨-, hv', hemits⟩ := siblings_leave_ledger (paidWorld_basis ..) (paidWorld_basis ..) hkin h h'
  obtain ⟨hrpl, heth, hlast⟩ := hemits _ hunit _ _ m hnext h₁
  rw [hv] at hv' hrpl heth hlast
  exact ⟨v, x', v', h, h', hv, hv', m, v₁, h₁, hrpl, heth, hlast⟩

end NodeGauge.Cycle
