/-
  NodeGauge.Proofs.Rewards.Reconcile — the rewards unit against what there is to read.
  The unit finds everything out before it commits anything (`reconcile_eq`), so its
  outcome and the ledger behind it follow from the world it begins in.

  `reconcile_ok_iff`: it succeeds when all it needs can be read (`Readable`) and four exact
  sums are amounts (`sums`), and then these and the intervals due tell the outcome and the
  ledger.
-/

import NodeGauge.Proofs.Rewards.Readings
import NodeGauge.Proofs.Wei

namespace NodeGauge.Rewards

open Job

variable (cfg : Settings) (node : Text)

/-! ## Finding out, then committing -/

/-- What the unit knows when it commits: the intervals to fold in, the exact sums of what
    is unclaimed, the latest block. -/
structure Findings where
  infos : List IntervalInfo
  rpl : Wei
  eth : Wei
  block : Int

def gatherFrom (status : ClaimStatus) : Job Findings := do
  let infos ← newlyClaimed cfg node status.claimed
  let (rpl, eth) ← unclaimedSums cfg node status.unclaimed
  return ⟨infos, rpl, eth, ← Chain.Client.latestBlock⟩

def gather : Job Findings := do gatherFrom cfg node (← claimStatus cfg node)

def settle (f : Findings) : Job Unclaimed := do
  Job.ofExcept (← send (.commit f.infos f.block))
  return { rpl := ← Wei.toEther f.rpl, eth := ← Wei.toEther f.eth }

theorem reconcile_eq : reconcile cfg node = gather cfg node >>= settle := by
  unfold reconcile gather gatherFrom settle
  simp only [LawfulMonad.bind_assoc, pure_bind]

/-- What a commit on the ledger makes of the unit. -/
def outcome (l : Ledger) (f : Findings) : Except Fault Unclaimed := do
  (l.commit f.infos f.block).2
  return { rpl := ← Wei.toEther f.rpl, eth := ← Wei.toEther f.eth }

theorem run_settle (f : Findings) (w : World) :
    (settle f).run w = (outcome w.memory.ledger f, w.after (.commit f.infos f.block)) := by
  show ((Job.ofExcept (w.memory.ledger.commit f.infos f.block).2).bind fun _ =>
    (Job.ofExcept f.rpl.toEther).bind fun rpl => (Job.ofExcept f.eth.toEther).bind fun eth =>
      done (Unclaimed.mk rpl eth)).run (w.after (.commit f.infos f.block)) = _
  unfold outcome
  cases (w.memory.ledger.commit f.infos f.block).2 with
  | error e => rfl
  | ok _ =>
    cases f.rpl.toEther with
    | error e => rfl
    | ok rpl =>
      cases f.eth.toEther with
      | error e => rfl
      | ok eth => rfl

theorem gatherFrom_looks (status : ClaimStatus) : (gatherFrom cfg node status).Straight Looks :=
  straight_bind (newlyClaimed_looks ..) fun _ => straight_bind (unclaimedSums_looks ..) fun _ =>
    straight_bind latestBlock_looks fun _ => trivial

theorem gather_seeks : (gather cfg node).Straight Seeks :=
  straight_bind (claimStatus_seeks ..) fun status => (gatherFrom_looks cfg node status).mono seeks_of_looks

/-- The unit fails while it finds out and leaves the ledger, or commits and comes to what
    the commit and the two conversions behind it make of it. -/
theorem run_reconcile (w : World) :
    (∃ e, (gather cfg node).answer w = .error e ∧ (reconcile cfg node).answer w = .error e ∧
      ((reconcile cfg node).run w).2.memory.ledger = w.memory.ledger) ∨
    ∃ f, (gather cfg node).answer w = .ok f ∧ (reconcile cfg node).answer w = outcome w.memory.ledger f ∧
      ((reconcile cfg node).run w).2.memory.ledger = (w.memory.ledger.commit f.infos f.block).1 := by
  have hw : Alike w ((gather cfg node).run w).2 := run_alike (gather_seeks cfg node)
  have hrun : (reconcile cfg node).run w = ((gather cfg node).bind settle).run w := by
    rw [reconcile_eq]
    rfl
  rw [run_bind] at hrun
  unfold answer
  generalize (gather cfg node).run w = r at hw hrun
  obtain ⟨x, v⟩ := r
  cases x with
  | error e =>
    rw [hrun]
    exact Or.inl ⟨e, rfl, rfl, hw.2⟩
  | ok f =>
    have hv : v.memory.ledger = w.memory.ledger := hw.2
    rw [hrun]
    simp only [run_settle, World.after, Ask.effect, hv]
    exact Or.inr ⟨f, rfl, rfl, rfl⟩

/-! ## What there is to find out -/

/-- The intervals below the index that are not claimed. -/
def unclaimed (w : World) (n : Nat) : List Int := (split (isClaimed cfg node w) 0 n).unclaimed

/-- The claimed ones that the ledger does not hold yet. -/
def due (w : World) (n : Nat) : List Int :=
  (split (isClaimed cfg node w) 0 n).claimed.filter fun i => !w.memory.ledger.isHandled i

/-- What is said about the node in the trees of intervals that name it. -/
def named (w : World) (intervals : List Int) : List IntervalInfo :=
  (intervals.filterMap (treeInfo cfg node w)).filter (·.listed)

/-- All that the unit needs is there: the reward index, the bitmaps up to that of the index
    unless it is 0, the tree of each interval that is not claimed or not handled, and the
    latest block. -/
structure Readable (w : World) (n : Nat) (block : Int) : Prop where
  index : (Chain.Client.rewardIndex cfg.network.storage).answer w = .ok n
  bitmaps : n ≠ 0 → ∀ b ≤ n / 256, ∃ word, bitmapAt cfg node w b = .ok word
  trees : ∀ i < n, (isClaimed cfg node w i = true → w.memory.ledger.isHandled i = false) →
    (treeInfo cfg node w i).isSome
  block : Chain.Client.latestBlock.answer w = .ok block

/-- The exact sums that are turned into ether: over what is due, and over what is unclaimed. -/
structure Sums where
  dueRpl : Wei
  dueEth : Wei
  unclaimedRpl : Wei
  unclaimedEth : Wei

def sums (w : World) (n : Nat) : Sums where
  dueRpl := rplOf (named cfg node w (due cfg node w n))
  dueEth := ethOf (named cfg node w (due cfg node w n))
  unclaimedRpl := rplOf (named cfg node w (unclaimed cfg node w n))
  unclaimedEth := ethOf (named cfg node w (unclaimed cfg node w n))

/-- What is found out then. -/
def findings (w : World) (n : Nat) (block : Int) : Findings :=
  ⟨(due cfg node w n).filterMap (treeInfo cfg node w), (sums cfg node w n).unclaimedRpl,
    (sums cfg node w n).unclaimedEth, block⟩

variable {cfg node} in
theorem trees_iff {w : World} {n : Nat} :
    ((∀ i ∈ (split (isClaimed cfg node w) 0 n).claimed, w.memory.ledger.isHandled i = false →
        (treeInfo cfg node w i).isSome) ∧
      ∀ i ∈ (split (isClaimed cfg node w) 0 n).unclaimed, (treeInfo cfg node w i).isSome) ↔
    ∀ i < n, (isClaimed cfg node w i = true → w.memory.ledger.isHandled i = false) →
      (treeInfo cfg node w i).isSome := by
  constructor
  · intro h
    obtain ⟨hclaimed, hunclaimed⟩ := h
    intro i hi h
    cases hc : isClaimed cfg node w i with
    | true => exact hclaimed i (mem_claimed.mpr ⟨i, hi, hc, rfl⟩) (h hc)
    | false => exact hunclaimed i (mem_unclaimed.mpr ⟨i, hi, hc, rfl⟩)
  · intro h
    refine ⟨fun i hi hh => ?_, fun i hi => ?_⟩
    · obtain ⟨k, hk, -, rfl⟩ := mem_claimed.mp hi
      exact h k hk fun _ => hh
    · obtain ⟨k, hk, hc, rfl⟩ := mem_unclaimed.mp hi
      exact h k hk fun hc' => absurd (hc.symm.trans hc') (by decide)

theorem gatherFrom_ok_iff (status : ClaimStatus) (w : World) (f : Findings) :
    (gatherFrom cfg node status).answer w = .ok f ↔
      ∃ infos, (newlyClaimed cfg node status.claimed).answer w = .ok infos ∧
        ∃ rpl eth, (unclaimedSums cfg node status.unclaimed).answer w = .ok (rpl, eth) ∧
          ∃ block, Chain.Client.latestBlock.answer w = .ok block ∧ f = ⟨infos, rpl, eth, block⟩ := by
  unfold gatherFrom
  rw [answer_bind_ok ((newlyClaimed_looks ..).mono seeks_of_looks)]
  · refine exists_congr fun infos => and_congr_right fun _ => ?_
    rw [answer_bind_ok ((unclaimedSums_looks ..).mono seeks_of_looks), Prod.exists]
    · simp only [answer_map_ok _ latestBlock_looks]
    · exact fun _ => straight_bind latestBlock_looks fun _ => trivial
  · exact fun _ => straight_bind (unclaimedSums_looks ..) fun _ => straight_bind latestBlock_looks fun _ => trivial

theorem gather_ok_iff (w : World) (f : Findings) :
    (gather cfg node).answer w = .ok f ↔ ∃ n block, Readable cfg node w n block ∧ f = findings cfg node w n block := by
  unfold gather
  rw [answer_bind_ok (claimStatus_seeks ..) (gatherFrom_looks cfg node)]
  simp only [gatherFrom_ok_iff, claimStatus_ok_iff, newlyClaimed_ok_iff, unclaimedSums_ok_iff]
  constructor
  · intro h
    obtain ⟨_, ⟨n, hn, hb, rfl⟩, _, ⟨hclaimed, rfl⟩, _, _, ⟨hunclaimed, rfl, rfl⟩, block, hblock, rfl⟩ := h
    exact ⟨n, block, ⟨hn, hb, trees_iff.mp ⟨hclaimed, hunclaimed⟩, hblock⟩, rfl⟩
  · intro h
    obtain ⟨n, block, ⟨hn, hb, htrees, hblock⟩, rfl⟩ := h
    obtain ⟨hclaimed, hunclaimed⟩ := trees_iff.mpr htrees
    exact ⟨_, ⟨n, hn, hb, rfl⟩, _, ⟨hclaimed, rfl⟩, _, _, ⟨hunclaimed, rfl, rfl⟩, block, hblock, rfl⟩

/-! ## The commit of what is found out -/

variable {cfg node} {w : World} {n : Nat} {block : Int}

theorem Readable.tree (h : Readable cfg node w n block) {i : Int} (hi : i ∈ due cfg node w n) :
    (treeInfo cfg node w i).isSome := by
  obtain ⟨hc, hh⟩ := List.mem_filter.mp hi
  exact (trees_iff.mpr h.trees).1 i hc (by simpa using hh)

theorem Readable.indices_infos (h : Readable cfg node w n block) :
    indices (findings cfg node w n block).infos = due cfg node w n :=
  indices_filterMap fun _ => h.tree

/-- All intervals that are due count: they are distinct, and none is handled. -/
theorem Readable.firsts_infos (h : Readable cfg node w n block) :
    firsts w.memory.ledger.handled (findings cfg node w n block).infos = (findings cfg node w n block).infos := by
  refine firsts_of_new ?_ fun i hi => ?_
  · rw [h.indices_infos]
    exact (nodup_claimed ..).filter _
  · rw [h.indices_infos] at hi
    have hh := (List.mem_filter.mp hi).2
    simpa [Ledger.isHandled] using hh

/-- Trees that do not name the node add nothing. -/
theorem sums_of_named (intervals : List Int) :
    rplOf (intervals.filterMap (treeInfo cfg node w)) = rplOf (named cfg node w intervals) ∧
      ethOf (intervals.filterMap (treeInfo cfg node w)) = ethOf (named cfg node w intervals) := by
  unfold named
  induction intervals with
  | nil => exact ⟨rfl, rfl⟩
  | cons i rest ih =>
    cases hi : treeInfo cfg node w i with
    | none => simpa only [List.filterMap_cons_none hi] using ih
    | some info =>
      rw [List.filterMap_cons_some hi]
      cases hl : info.listed with
      | true => simp [hl, ih]
      | false =>
        obtain ⟨hr, he⟩ := treeInfo_unlisted hi hl
        simp [hl, hr, he, ih]

/-- Where nothing is due nothing is added. -/
theorem sums_of_due_nil (h : due cfg node w n = []) :
    (sums cfg node w n).dueRpl = 0 ∧ (sums cfg node w n).dueEth = 0 := by
  simp only [sums, h]
  exact ⟨rfl, rfl⟩

/-- The exact sums of what the commit counts are those over what is due. -/
theorem Readable.due_sums (h : Readable cfg node w n block) :
    rplOf (firsts w.memory.ledger.handled (findings cfg node w n block).infos) = (sums cfg node w n).dueRpl ∧
      ethOf (firsts w.memory.ledger.handled (findings cfg node w n block).infos) = (sums cfg node w n).dueEth := by
  rw [h.firsts_infos]
  exact sums_of_named (due cfg node w n)

theorem Readable.commit_ok_iff (h : Readable cfg node w n block) (l : Ledger) :
    w.memory.ledger.commit (findings cfg node w n block).infos block = (l, .ok ()) ↔
      ∃ rpl eth, Wei.toEther (sums cfg node w n).dueRpl = .ok rpl ∧ Wei.toEther (sums cfg node w n).dueEth = .ok eth ∧
        l = w.memory.ledger.plus rpl eth (due cfg node w n) block := by
  obtain ⟨hr, he⟩ := h.due_sums
  rw [Rewards.commit_ok_iff, hr, he, h.firsts_infos, h.indices_infos]

theorem outcome_ok_iff {l : Ledger} {f : Findings} {u : Unclaimed} :
    outcome l f = .ok u ↔
      (l.commit f.infos f.block).2 = .ok () ∧ Wei.toEther f.rpl = .ok u.rpl ∧ Wei.toEther f.eth = .ok u.eth := by
  unfold outcome
  simp only [except_bind_ok]
  constructor
  · intro h
    obtain ⟨_, hc, rpl, hr, eth, he, hu⟩ := h
    cases hu
    exact ⟨hc, hr, he⟩
  · intro h
    obtain ⟨hc, hr, he⟩ := h
    exact ⟨(), hc, u.rpl, hr, u.eth, he, rfl⟩

theorem Readable.run_reconcile (h : Readable cfg node w n block) :
    (reconcile cfg node).answer w = outcome w.memory.ledger (findings cfg node w n block) ∧
      ((reconcile cfg node).run w).2.memory.ledger =
        (w.memory.ledger.commit (findings cfg node w n block).infos block).1 := by
  have hg := (gather_ok_iff cfg node w _).mpr ⟨n, block, h, rfl⟩
  rcases Rewards.run_reconcile cfg node w with ⟨e, he, -⟩ | ⟨f, hf, ho, hl⟩
  · rw [hg] at he
    cases he
  · rw [hg] at hf
    cases hf
    exact ⟨ho, hl⟩

theorem run_of_not_readable (h : ¬ ∃ n block, Readable cfg node w n block) :
    (∃ e, (reconcile cfg node).answer w = .error e) ∧
      ((reconcile cfg node).run w).2.memory.ledger = w.memory.ledger := by
  rcases run_reconcile cfg node w with ⟨e, -, he, hl⟩ | ⟨f, hf, -⟩
  · exact ⟨⟨e, he⟩, hl⟩
  · obtain ⟨n, block, hr, -⟩ := (gather_ok_iff ..).mp hf
    exact absurd ⟨n, block, hr⟩ h

/-- The unit succeeds, with this outcome and this ledger behind it. -/
theorem reconcile_ok_ledger_iff (w : World) (u : Unclaimed) (l : Ledger) :
    ((reconcile cfg node).answer w = .ok u ∧ ((reconcile cfg node).run w).2.memory.ledger = l) ↔
      ∃ n block, Readable cfg node w n block ∧
        Wei.toEther (sums cfg node w n).unclaimedRpl = .ok u.rpl ∧
        Wei.toEther (sums cfg node w n).unclaimedEth = .ok u.eth ∧
        ∃ rpl eth, Wei.toEther (sums cfg node w n).dueRpl = .ok rpl ∧
          Wei.toEther (sums cfg node w n).dueEth = .ok eth ∧
          l = w.memory.ledger.plus rpl eth (due cfg node w n) block := by
  constructor
  · intro h
    obtain ⟨hu, hl⟩ := h
    by_cases hex : ∃ n block, Readable cfg node w n block
    · obtain ⟨n, block, h⟩ := hex
      obtain ⟨ho, hl'⟩ := h.run_reconcile
      rw [ho] at hu
      obtain ⟨hc, hr, he⟩ := outcome_ok_iff.mp hu
      rw [hl] at hl'
      exact ⟨n, block, h, hr, he, (h.commit_ok_iff l).mp (Prod.ext hl'.symm hc)⟩
    · obtain ⟨⟨e, he⟩, -⟩ := run_of_not_readable hex
      rw [he] at hu
      cases hu
  · intro h
    obtain ⟨n, block, h, hr, he, hd⟩ := h
    have hc := (h.commit_ok_iff l).mpr hd
    obtain ⟨ho, hl⟩ := h.run_reconcile
    rw [ho, hl]
    exact ⟨outcome_ok_iff.mpr ⟨congrArg Prod.snd hc, hr, he⟩, congrArg Prod.fst hc⟩

/-! ## The unit -/

/-- The handled intervals are then the old ones and all claimed below the index. -/
theorem mem_handled_due {i : Int} :
    i ∈ w.memory.ledger.handled ++ due cfg node w n ↔
      i ∈ w.memory.ledger.handled ∨ ∃ k < n, isClaimed cfg node w k = true ∧ i = k := by
  unfold due
  rw [List.mem_append, List.mem_filter, mem_claimed]
  by_cases h : i ∈ w.memory.ledger.handled
  · simp [h]
  · simp [Ledger.isHandled, h]

theorem eq_plus_iff {l l' : Ledger} {rpl eth : Double} {new : List Int} {block : Int} :
    l' = l.plus rpl eth new block ↔
      l'.rpl = l.rpl + rpl ∧ l'.eth = l.eth + eth ∧ l'.handled = l.handled ++ new ∧
        l'.nextBlock = some (block + 1) := by
  cases l'
  unfold Ledger.plus
  rw [Ledger.mk.injEq]

/-- The unit succeeds exactly when all it needs can be read and the four sums are amounts.
    Its outcome is then the two sums over the unclaimed intervals in ether. Each total of
    the ledger has moved by the sum over the intervals due, in ether; the intervals below
    the index that are claimed are handled besides those that were; and the next block
    follows the latest. -/
theorem reconcile_ok_iff (cfg : Settings) (node : Text) (w : World) :
    ((∃ u, (reconcile cfg node).answer w = .ok u) ↔
      ∃ n block, Readable cfg node w n block ∧
        (sums cfg node w n).dueRpl.IsAmount ∧ (sums cfg node w n).dueEth.IsAmount ∧
        (sums cfg node w n).unclaimedRpl.IsAmount ∧ (sums cfg node w n).unclaimedEth.IsAmount) ∧
    ∀ u l, ((reconcile cfg node).answer w = .ok u ∧ ((reconcile cfg node).run w).2.memory.ledger = l) ↔
      ∃ n block, Readable cfg node w n block ∧
        Wei.toEther (sums cfg node w n).unclaimedRpl = .ok u.rpl ∧
        Wei.toEther (sums cfg node w n).unclaimedEth = .ok u.eth ∧
        ∃ rpl eth, Wei.toEther (sums cfg node w n).dueRpl = .ok rpl ∧
          Wei.toEther (sums cfg node w n).dueEth = .ok eth ∧
          l.rpl = w.memory.ledger.rpl + rpl ∧ l.eth = w.memory.ledger.eth + eth ∧
          l.handled = w.memory.ledger.handled ++ due cfg node w n ∧
          (∀ i, i ∈ l.handled ↔ i ∈ w.memory.ledger.handled ∨ ∃ k < n, isClaimed cfg node w k = true ∧ i = k) ∧
          l.nextBlock = some (block + 1) := by
  constructor
  · constructor
    · intro h
      obtain ⟨u, hu⟩ := h
      obtain ⟨n, block, h, hur, hue, rpl, eth, hr, he, -⟩ := (reconcile_ok_ledger_iff w u _).mp ⟨hu, rfl⟩
      exact ⟨n, block, h, Wei.exists_toEther_iff.mp ⟨_, hr⟩, Wei.exists_toEther_iff.mp ⟨_, he⟩,
        Wei.exists_toEther_iff.mp ⟨_, hur⟩, Wei.exists_toEther_iff.mp ⟨_, hue⟩⟩
    · intro h
      obtain ⟨n, block, h, hr, he, hur, hue⟩ := h
      obtain ⟨rpl, hr⟩ := Wei.exists_toEther_iff.mpr hr
      obtain ⟨eth, he⟩ := Wei.exists_toEther_iff.mpr he
      obtain ⟨urpl, hur⟩ := Wei.exists_toEther_iff.mpr hur
      obtain ⟨ueth, hue⟩ := Wei.exists_toEther_iff.mpr hue
      exact ⟨⟨urpl, ueth⟩, ((reconcile_ok_ledger_iff w _ _).mpr ⟨n, block, h, hur, hue, rpl, eth, hr, he, rfl⟩).1⟩
  · intro u l
    rw [reconcile_ok_ledger_iff]
    refine exists_congr fun n => exists_congr fun block => and_congr_right fun h => and_congr_right fun _ =>
      and_congr_right fun _ => exists_congr fun rpl => exists_congr fun eth => and_congr_right fun _ =>
      and_congr_right fun _ => ?_
    rw [eq_plus_iff]
    constructor
    · intro ⟨h1, h2, h3, h4⟩
      refine ⟨h1, h2, h3, fun i => ?_, h4⟩
      rw [h3]
      exact mem_handled_due
    · intro ⟨h1, h2, h3, _, h4⟩
      exact ⟨h1, h2, h3, h4⟩

end NodeGauge.Rewards
