/-
  NodeGauge.Proofs.Rewards.Failure — the ledger behind a rewards unit that failed.

  While the unit finds things out it changes nothing, and a sum of the intervals' RPL that
  is no amount is met before the ledger is touched. The other three sums are turned into
  ether when it has been touched already: that of the ETH when the RPL total has moved, and
  those of what is unclaimed when all is committed (`Torn`). So a failure leaves the ledger
  as it was or torn, and which of the two is known before the unit starts
  (`failed_ledger_iff`, `failed_keeps_ledger_iff`).
-/

import NodeGauge.Proofs.Chain.Steady
import NodeGauge.Proofs.Rewards.Reconcile

namespace NodeGauge.Rewards

open Job

section

variable (cfg : Settings) (node : Text) (w : World) (n : Nat) (block : Int)

/-- What a conversion that fails late leaves of the ledger. -/
inductive Torn : Ledger → Prop where
  /-- The RPL total has moved, and nothing else. -/
  | due {rpl : Double} (hr : Wei.toEther (sums cfg node w n).dueRpl = .ok rpl)
      (he : ¬ (sums cfg node w n).dueEth.IsAmount) :
      Torn { w.memory.ledger with rpl := w.memory.ledger.rpl + rpl }
  /-- The intervals are folded in as if the unit had succeeded. -/
  | unclaimed {rpl eth : Double} (hr : Wei.toEther (sums cfg node w n).dueRpl = .ok rpl)
      (he : Wei.toEther (sums cfg node w n).dueEth = .ok eth)
      (hu : ¬ ((sums cfg node w n).unclaimedRpl.IsAmount ∧ (sums cfg node w n).unclaimedEth.IsAmount)) :
      Torn (w.memory.ledger.plus rpl eth (due cfg node w n) block)

end

variable {cfg : Settings} {node : Text} {w : World} {n : Nat} {block : Int}

theorem outcome_error_of_commit {l l' : Ledger} {f : Findings} {e : Fault}
    (h : l.commit f.infos f.block = (l', .error e)) : outcome l f = .error e := by
  unfold outcome
  rw [h]
  rfl

/-- After a commit only the two sums of what is unclaimed can fail the unit. -/
theorem outcome_error_iff_of_commit {l l' : Ledger} {f : Findings} (h : l.commit f.infos f.block = (l', .ok ())) :
    (∃ e, outcome l f = .error e) ↔ ¬ (f.rpl.IsAmount ∧ f.eth.IsAmount) := by
  have hok : (∃ u, outcome l f = .ok u) ↔ f.rpl.IsAmount ∧ f.eth.IsAmount := by
    simp only [outcome_ok_iff, h, true_and]
    rw [← Wei.exists_toEther_iff, ← Wei.exists_toEther_iff]
    constructor
    · intro ⟨u, hr, he⟩
      exact ⟨⟨u.rpl, hr⟩, ⟨u.eth, he⟩⟩
    · intro ⟨⟨rpl, hr⟩, ⟨eth, he⟩⟩
      exact ⟨⟨rpl, eth⟩, hr, he⟩
  rw [← hok]
  cases outcome l f with
  | error e => simp
  | ok u => simp

/-! ## Which conversion fails first -/

theorem not_torn {e : Fault} (hr : Wei.toEther (sums cfg node w n).dueRpl = .error e) (l : Ledger) :
    ¬ Torn cfg node w n block l := by
  intro h
  cases h with
  | due hr' _ => cases hr.symm.trans hr'
  | unclaimed hr' _ _ => cases hr.symm.trans hr'

theorem torn_iff_of_eth_error {rpl : Double} {e : Fault} (hr : Wei.toEther (sums cfg node w n).dueRpl = .ok rpl)
    (he : Wei.toEther (sums cfg node w n).dueEth = .error e) (l : Ledger) :
    Torn cfg node w n block l ↔ { w.memory.ledger with rpl := w.memory.ledger.rpl + rpl } = l := by
  constructor
  · intro h
    cases h with
    | due hr' _ =>
      cases hr.symm.trans hr'
      rfl
    | unclaimed _ he' _ => cases he.symm.trans he'
  · intro h
    subst h
    exact .due hr (Wei.toEther_error_iff.mp he).1

theorem torn_iff_of_ok {rpl eth : Double} (hr : Wei.toEther (sums cfg node w n).dueRpl = .ok rpl)
    (he : Wei.toEther (sums cfg node w n).dueEth = .ok eth) (l : Ledger) :
    Torn cfg node w n block l ↔
      ¬ ((sums cfg node w n).unclaimedRpl.IsAmount ∧ (sums cfg node w n).unclaimedEth.IsAmount) ∧
        w.memory.ledger.plus rpl eth (due cfg node w n) block = l := by
  constructor
  · intro h
    cases h with
    | due _ he' => exact absurd (Wei.exists_toEther_iff.mp ⟨eth, he⟩) he'
    | unclaimed hr' he' hu =>
      cases hr.symm.trans hr'
      cases he.symm.trans he'
      exact ⟨hu, rfl⟩
  · intro h
    obtain ⟨hu, rfl⟩ := h
    exact .unclaimed hr he hu

/-- The unit fails after its reading, by the first of the four sums that is no amount. -/
theorem Readable.failed_iff (h : Readable cfg node w n block) (l : Ledger) :
    ((∃ e, (reconcile cfg node).answer w = .error e) ∧ ((reconcile cfg node).run w).2.memory.ledger = l) ↔
      (l = w.memory.ledger ∧ ¬ (sums cfg node w n).dueRpl.IsAmount) ∨ Torn cfg node w n block l := by
  obtain ⟨ho, hl⟩ := h.run_reconcile
  obtain ⟨hdr, hde⟩ := h.due_sums
  rw [ho, hl]
  cases hr : Wei.toEther (sums cfg node w n).dueRpl with
  | error e =>
    have hc := commit_of_rpl_error block (hdr ▸ hr)
    have hno : ¬ (sums cfg node w n).dueRpl.IsAmount := (Wei.toEther_error_iff.mp hr).1
    rw [outcome_error_of_commit hc, hc]
    simp [hno, not_torn hr, eq_comm]
  | ok rpl =>
    have hrpl : (sums cfg node w n).dueRpl.IsAmount := Wei.exists_toEther_iff.mp ⟨rpl, hr⟩
    cases he : Wei.toEther (sums cfg node w n).dueEth with
    | error e =>
      have hc := commit_of_eth_error block (hdr ▸ hr) (hde ▸ he)
      rw [outcome_error_of_commit hc, hc, torn_iff_of_eth_error hr he]
      simp [hrpl]
    | ok eth =>
      have hc : w.memory.ledger.commit (findings cfg node w n block).infos block =
          (w.memory.ledger.plus rpl eth (due cfg node w n) block, .ok ()) :=
        (h.commit_ok_iff _).mpr ⟨rpl, eth, hr, he, rfl⟩
      rw [outcome_error_iff_of_commit hc, hc, torn_iff_of_ok hr he]
      simp only [hrpl, not_true, and_false, false_or]
      rfl

/-! ## The ledger behind a failure -/

theorem Readable.unique {n' : Nat} {block' : Int} (h : Readable cfg node w n block)
    (h' : Readable cfg node w n' block') : n' = n ∧ block' = block :=
  ⟨Except.ok.inj (h'.index.symm.trans h.index), Except.ok.inj (h'.block.symm.trans h.block)⟩

/-- Behind a unit that failed the ledger is as it was when something could not be read or
    the sum of the RPL is no amount, and torn when neither is so. -/
theorem failed_ledger_iff (l : Ledger) :
    ((∃ e, (reconcile cfg node).answer w = .error e) ∧ ((reconcile cfg node).run w).2.memory.ledger = l) ↔
      (l = w.memory.ledger ∧ ¬ ∃ n block, Readable cfg node w n block ∧ (sums cfg node w n).dueRpl.IsAmount) ∨
        ∃ n block, Readable cfg node w n block ∧ Torn cfg node w n block l := by
  by_cases hex : ∃ n block, Readable cfg node w n block
  · obtain ⟨n, block, h⟩ := hex
    rw [h.failed_iff]
    constructor
    · intro hcase
      rcases hcase with ⟨hl, hn⟩ | ht
      · refine Or.inl ⟨hl, fun ⟨n', block', h', hr⟩ => hn ?_⟩
        obtain ⟨rfl, rfl⟩ := h.unique h'
        exact hr
      · exact Or.inr ⟨n, block, h, ht⟩
    · intro hcase
      rcases hcase with ⟨hl, hn⟩ | ⟨n', block', h', ht⟩
      · exact Or.inl ⟨hl, fun hr => hn ⟨n, block, h, hr⟩⟩
      · obtain ⟨rfl, rfl⟩ := h.unique h'
        exact Or.inr ht
  · obtain ⟨he, hl⟩ := run_of_not_readable hex
    rw [hl]
    constructor
    · intro ⟨_, h⟩
      exact Or.inl ⟨h.symm, fun ⟨n, block, h, _⟩ => hex ⟨n, block, h⟩⟩
    · intro hcase
      rcases hcase with ⟨h, _⟩ | ⟨n, block, h, _⟩
      · exact ⟨he, h.symm⟩
      · exact absurd ⟨n, block, h⟩ hex

/-- A failure keeps the ledger exactly when there is nothing to tear: when all can be read
    and the sum of the RPL is an amount, the other three sums must be amounts too, or what
    was added must leave the ledger equal. -/
theorem failed_keeps_ledger_iff (cfg : Settings) (node : Text) (w : World) :
    (∀ e, (reconcile cfg node).answer w = .error e → ((reconcile cfg node).run w).2.memory.ledger = w.memory.ledger) ↔
      ∀ n block l, Readable cfg node w n block → Torn cfg node w n block l → l = w.memory.ledger := by
  constructor
  · intro h n block l hr ht
    obtain ⟨⟨e, he⟩, hl⟩ := (failed_ledger_iff l).mpr (Or.inr ⟨n, block, hr, ht⟩)
    exact hl.symm.trans (h e he)
  · intro h e he
    rcases (failed_ledger_iff _).mp ⟨⟨e, he⟩, rfl⟩ with ⟨hl, _⟩ | ⟨n, block, hr, ht⟩
    · exact hl
    · exact h n block _ hr ht

/-! ## A failure that moves a total -/

def debtor : Address := Address.ofNat 0x1111111111111111111111111111111111111111

/-- A tree by which the node is paid RPL and owes ETH. -/
def debtTree : Text :=
  "\x7b\"nodeRewards\": \x7b\"0x1111111111111111111111111111111111111111\": " ++
    "\x7b\"collateralRpl\": \"1000000000000000000\", \"smoothingPoolEth\": \"-1\"\x7d\x7d\x7d"

/-- One interval has ended, it is claimed, and its tree is the above. -/
def debtWorld : World where
  outside := {
    chain := { latestBlock := .ok 100, read := fun _ _ _ => .ok (Chain.word 1) }
    beacon := fun _ _ => .outage .connection
    files := fun _ => .ok debtTree.toUtf8 }

theorem debtor_text : debtor.text = "0x1111111111111111111111111111111111111111" := by
  rw [Address.text_of_decimal (by decide)]
  decide +kernel

theorem debtWorld_steady : Chain.Steady debtWorld.outside.chain 1 :=
  ⟨⟨Chain.word 1, fun _ _ _ => rfl, by decide +kernel, Address.ofNat 1, by decide +kernel⟩⟩

theorem debtWorld_bitmap (b : Nat) : bitmapAt {} debtor.text debtWorld b = .ok 1 := debtWorld_steady.claimedBitmap ..

theorem debtWorld_isClaimed : isClaimed {} debtor.text debtWorld 0 = true :=
  isClaimed_of_bitmap (debtWorld_bitmap 0) (by decide) (by decide)

theorem debtWorld_tree : ∃ info, treeInfo {} debtor.text debtWorld 0 = some info ∧ info.listed = true ∧
    info.collateralRpl = 10 ^ 18 ∧ info.smoothingPoolEth = -1 := by
  have h : (treeInfo {} debtor.text debtWorld 0).map (fun i => (i.listed, i.collateralRpl, i.smoothingPoolEth)) =
      some (true, 10 ^ 18, -1) := by
    rw [debtor_text]
    decide +kernel
  obtain ⟨info, hi, he⟩ := Option.map_eq_some_iff.mp h
  simp only [Prod.mk.injEq] at he
  exact ⟨info, hi, he⟩

theorem debtWorld_readable : Readable {} debtor.text debtWorld 1 100 where
  index := debtWorld_steady.rewardIndex _
  bitmaps := fun _ b _ => ⟨1, debtWorld_bitmap b⟩
  trees := by
    obtain ⟨info, hi, -⟩ := debtWorld_tree
    intro i h _
    have h0 : i = 0 := by omega
    subst h0
    exact Option.isSome_of_eq_some hi
  block := rfl

theorem debtWorld_due : due {} debtor.text debtWorld 1 = [0] := by
  have hh : debtWorld.memory.ledger.isHandled 0 = false := rfl
  have hr : List.range' 0 1 = [0] := rfl
  unfold due split
  simp only [hr, List.filter_cons, debtWorld_isClaimed, List.filter_nil, if_true, List.map_cons, List.map_nil]
  simp [hh]

theorem debtWorld_sums :
    (sums {} debtor.text debtWorld 1).dueRpl = 10 ^ 18 ∧ (sums {} debtor.text debtWorld 1).dueEth = -1 := by
  obtain ⟨info, hi, hl, hr, he⟩ := debtWorld_tree
  have hn : named {} debtor.text debtWorld [0] = [info] := by
    unfold named
    rw [List.filterMap_cons_some hi]
    simp [hl]
  unfold sums
  rw [debtWorld_due, hn]
  simp [rplOf, ethOf, hr, he]

/-- A failed unit can leave a total moved: here by 1 RPL, with nothing folded in. -/
theorem failure_moves_total :
    (∃ e, (reconcile {} debtor.text).answer debtWorld = .error e) ∧
      ((reconcile {} debtor.text).run debtWorld).2.memory.ledger = { rpl := 1 } ∧
      ((reconcile {} debtor.text).run debtWorld).2.memory.ledger ≠ debtWorld.memory.ledger := by
  obtain ⟨hr, he⟩ := debtWorld_sums
  have hone : Wei.toEther (sums {} debtor.text debtWorld 1).dueRpl = .ok 1 := by
    rw [hr]
    decide +kernel
  have hneg : ¬ (sums {} debtor.text debtWorld 1).dueEth.IsAmount := by
    rw [he]
    intro h
    exact absurd h.1 (by decide)
  obtain ⟨hfail, hl⟩ := (failed_ledger_iff _).mpr (Or.inr ⟨1, 100, debtWorld_readable, .due hone hneg⟩)
  have hsum : ({ debtWorld.memory.ledger with rpl := debtWorld.memory.ledger.rpl + 1 } : Ledger) = { rpl := 1 } := by
    decide +kernel
  rw [hl, hsum]
  exact ⟨hfail, rfl, by decide +kernel⟩

end NodeGauge.Rewards
