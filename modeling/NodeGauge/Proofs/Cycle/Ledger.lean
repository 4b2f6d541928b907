/-
  NodeGauge.Proofs.Cycle.Ledger — what a cycle does to the ledger, in whatever order its
  units take turns. The rewards unit alone commits, and nothing beside it can be noticed by
  it. So behind a cycle that had all to start from stands the ledger of its rewards unit
  run alone, and what the cycle emits of the rewards is the outcome of that run and the
  totals of that ledger (`ends_collect`). A cycle that is given up on the way leaves that
  ledger or the one it found (`reaches_collect`).
-/

import NodeGauge.Proofs.Cycle.Aside

namespace NodeGauge.Cycle

open Job
open NodeGauge.Rewards (reconcile)

variable {w v : World} {cfg : Settings} {node : Address}

/-! ## The units -/

/-- Each unit comes to what it can come to alone, in whatever order they take turns. -/
theorem ends_units {x : Except Fault (Except Fault Rewards.Unclaimed × Except Fault Beacon.Head)}
    (h : Ends (units cfg node) w x v) :
    ∃ y u, x = .ok ((reconcile cfg node.text).answer w, y) ∧ Ends (Beacon.head cfg) w y u ∧
      Same ((reconcile cfg node.text).run w).2 v := by
  have hunit := reconcile_straight cfg node.text
  have hbeside : Apart Same Settles Beacon.Requests := apart.mono fun q hq => by cases q <;> trivial
  obtain ⟨y, y', u, u', rfl, hy, hu, hy', -⟩ := Ends.of_fork hbeside apart_head hunit.uses (Beacon.head_requests cfg) h
  have hrun := hy.run_eq hunit
  have hanswer : (reconcile cfg node.text).answer w = y := congrArg Prod.fst hrun
  rw [hanswer, hrun]
  exact ⟨y', u', rfl, hy', hu⟩

/-- What a cycle that emits says of the rewards: the outcome of its unit, and the totals. -/
structure Tells (m : Metrics) (unclaimed : Rewards.Unclaimed) (l : Rewards.Ledger) : Prop where
  unclaimedRpl : m.unclaimedRplRewards = unclaimed.rpl
  unclaimedEth : m.unclaimedEthRewards = unclaimed.eth
  rpl : m.cumulativeRplRewards = l.rpl
  eth : m.claimedEthRewards = l.eth

theorem metrics_rewards {b : Basis} {e : Estimates} {unclaimed : Rewards.Unclaimed} {balances : List BalanceDetails}
    {l : Rewards.Ledger} {m : Metrics} (h : metrics b e unclaimed balances l = .ok m) : Tells m unclaimed l := by
  unfold metrics at h
  obtain ⟨_, _, h⟩ := except_bind_ok.mp h
  obtain ⟨_, _, h⟩ := except_bind_ok.mp h
  obtain ⟨_, _, h⟩ := except_bind_ok.mp h
  obtain ⟨_, _, h⟩ := except_bind_ok.mp h
  obtain ⟨_, _, h⟩ := except_bind_ok.mp h
  cases h
  exact ⟨rfl, rfl, rfl, rfl⟩

theorem ends_finish {b : Basis} {unclaimed : Rewards.Unclaimed} {head : Beacon.Head} {m : Metrics}
    (h : Ends (finish cfg b unclaimed head) w (.ok (some m)) v) : Tells m unclaimed w.memory.ledger := by
  unfold finish at h
  obtain ⟨e, w₁, he, h⟩ := ends_bind_ok.mp h
  obtain ⟨r, w₂, hb, h⟩ := ends_bind_ok.mp h
  obtain ⟨-, rfl⟩ := ends_ofExcept.mp he
  have hsame : Same w₁ w₂ := ends_aside (uses_attempt ((balances_calls ..).uses.mono aside_of_calls)) hb
  cases r with
  | error f =>
    obtain ⟨_, w₃, -, h⟩ := ends_bind_ok.mp h
    cases (ends_done.mp h).1
  | ok balances =>
    obtain ⟨l, w₃, hl, h⟩ := ends_bind_ok.mp h
    obtain ⟨m', w₄, hm, h⟩ := ends_bind_ok.mp h
    obtain ⟨hl, -⟩ := ends_done.mp (ends_ask.mp hl).2
    obtain ⟨hm, -⟩ := ends_ofExcept.mp hm
    obtain ⟨hx, -⟩ := ends_done.mp h
    cases hx
    cases hl
    rw [← hsame.ledger]
    exact metrics_rewards hm.symm

theorem ends_report {b : Basis} {y : Except Fault Rewards.Unclaimed} {head : Except Fault Beacon.Head} {m : Metrics}
    (h : Ends (report cfg b (y, head)) w (.ok (some m)) v) : ∃ u, y = .ok u ∧ Tells m u w.memory.ledger := by
  have hfailed : ∀ {f}, ¬ Ends (do note (.cycleFailed f); return none) w (.ok (some m)) v := by
    intro f h
    have h : Ends (ask (.note (.cycleFailed f)) fun _ => done none) w (.ok (some m)) v := h
    cases (ends_done.mp (ends_ask.mp h).2).1
  cases y with
  | error f => exact absurd h hfailed
  | ok unclaimed =>
    cases head with
    | error f => exact absurd h hfailed
    | ok head => exact ⟨unclaimed, rfl, ends_finish h⟩

/-! ## The cycle -/

theorem ends_body {x : Except Fault (Option Metrics)} (h : Ends (body cfg node) w x v) :
    (basis? node w.memory = none ∧ x = .ok none ∧ Same w v) ∨
      ∃ b, basis? node w.memory = some b ∧ Same ((reconcile cfg node.text).run w).2 v ∧
        ∀ m, x = .ok (some m) → ∃ u, (reconcile cfg node.text).answer w = .ok u ∧ Tells m u v.memory.ledger := by
  rw [body_eq] at h
  rcases ends_bind.mp h with ⟨o, w₁, hp, h⟩ | ⟨e, -, hp⟩
  · obtain ⟨ho, hw⟩ := ends_prepare hp
    cases ho
    cases hb : basis? node w.memory with
    | none =>
      rw [hb] at h
      obtain ⟨hx, rfl⟩ := ends_done.mp h
      exact Or.inl ⟨rfl, hx, hw⟩
    | some b =>
      rw [hb] at h
      obtain ⟨ha, hs⟩ := reconcile_same cfg node hw
      rcases ends_bind.mp h with ⟨r, w₂, hu, h⟩ | ⟨e, -, hu⟩
      · obtain ⟨y, _, hr, -, hv⟩ := ends_units hu
        cases hr
        rw [ha] at h
        have hlast : Same w₂ v := ends_aside (report_aside ..) h
        refine Or.inr ⟨b, rfl, (hs.trans hv).trans hlast, fun m hm => ?_⟩
        subst hm
        rw [hlast.ledger]
        exact ends_report h
      · obtain ⟨_, _, hr, -⟩ := ends_units hu
        cases hr
  · cases (ends_prepare hp).1

theorem ends_collect_same {x : Except Fault (Option Metrics)} (h : Ends (collect cfg node) w x v) :
    (basis? node w.memory = none ∧ x = .ok none ∧ Same w v) ∨
      ∃ b, basis? node w.memory = some b ∧ Same ((reconcile cfg node.text).run w).2 v ∧
        ∀ m, x = .ok (some m) → ∃ u, (reconcile cfg node.text).answer w = .ok u ∧ Tells m u v.memory.ledger := by
  obtain ⟨-, v', hbody, rfl⟩ := ends_withLock.mp h
  have hw : Same w (w.after (.acquire .cycle)) := same_acquire .cycle
  have hm : basis? node (w.after (.acquire .cycle)).memory = basis? node w.memory := rfl
  have hv' : Same v' (v'.after (.release .cycle)) := ⟨rfl, rfl, rfl⟩
  obtain ⟨ha, hs⟩ := reconcile_same cfg node hw
  rcases ends_body hbody with ⟨hb, hx, hv⟩ | ⟨b, hb, hv, he⟩
  · exact Or.inl ⟨hm.symm.trans hb, hx, (hw.trans hv).trans hv'⟩
  · rw [ha] at he
    exact Or.inr ⟨b, hm.symm.trans hb, (hs.trans hv).trans hv', he⟩

/-- However its units take turns, a cycle that has not all to start from changes nothing and
    emits nothing, and any other leaves the ledger that its rewards unit alone would leave. -/
theorem ends_collect {x : Except Fault (Option Metrics)} (h : Ends (collect cfg node) w x v) :
    (basis? node w.memory = none ∧ x = .ok none ∧ v.memory.ledger = w.memory.ledger) ∨
      ∃ b, basis? node w.memory = some b ∧
        v.memory.ledger = ((reconcile cfg node.text).run w).2.memory.ledger ∧
        ∀ m, x = .ok (some m) → ∃ u, (reconcile cfg node.text).answer w = .ok u ∧ Tells m u v.memory.ledger := by
  rcases ends_collect_same h with ⟨hb, hx, hv⟩ | ⟨b, hb, hv, he⟩
  · exact Or.inl ⟨hb, hx, hv.ledger⟩
  · exact Or.inr ⟨b, hb, hv.ledger, he⟩

theorem body_free (cfg : Settings) (node : Address) : (body cfg node).Uses Free := by
  have hrequests : ∀ q, Beacon.Requests q → Free q := fun q h => free_of_aside q (by cases q <;> trivial)
  exact body_uses free_of_settles hrequests (fun q h => free_of_aside q (aside_of_reports q h))
    (fun q h => free_of_aside q (aside_of_peeks q h)) cfg node

/-- A cycle that finds its lock free can come to an end. -/
theorem exists_ends_collect (cfg : Settings) (node : Address) (h : Ask.ready w.memory (.acquire .cycle) = true) :
    ∃ x v, Ends (collect cfg node) w x v :=
  let ⟨_, _, hbody⟩ := exists_ends (body_free cfg node) (w.after (.acquire .cycle))
  ⟨_, _, ends_withLock.mpr ⟨h, _, hbody, rfl⟩⟩

/-! ## A cycle that is given up -/

/-- The ledger of a world is that of the first, or the one the unit leaves there. -/
def Before (cfg : Settings) (node : Address) (w v : World) : Prop :=
  v.memory.ledger = w.memory.ledger ∨ v.memory.ledger = ((reconcile cfg node.text).run w).2.memory.ledger

theorem reaches_gather {node : Text} (h : Reaches (Rewards.gather cfg node) w v) : Rewards.Alike w v :=
  h.keeps (I := Rewards.Alike w) (fun _ _ => Rewards.alike_after) (Rewards.gather_seeks cfg node).uses ⟨rfl, rfl⟩

/-- The unit alone: it commits in one step, and all its other steps keep the ledger. -/
theorem reaches_reconcile (h : Reaches (reconcile cfg node.text) w v) : Before cfg node w v := by
  rw [Rewards.reconcile_eq] at h
  have h : Reaches ((Rewards.gather cfg node.text).bind Rewards.settle) w v := h
  rcases reaches_bind h with h | ⟨f, w₁, hg, h⟩
  · exact Or.inl (reaches_gather h).2
  · have hw : Rewards.Alike w w₁ := reaches_gather hg.reaches
    have hrun : (reconcile cfg node.text).run w = (Rewards.settle f).run w₁ := by
      rw [Rewards.reconcile_eq]
      show ((Rewards.gather cfg node.text).bind Rewards.settle).run w = _
      rw [run_bind, hg.run_eq (Rewards.gather_seeks cfg node.text)]
    unfold Before
    rw [hrun, Rewards.run_settle]
    rcases reaches_ask h with rfl | h
    · exact Or.inl hw.2
    · have hend : v = w₁.after (.commit f.infos f.block) := by
        refine reaches_of_no_ask ?_ h
        exact uses_bind trivial fun r => uses_bind (uses_ofExcept r) fun _ =>
          uses_bind (uses_ofExcept _) fun _ => uses_bind (uses_ofExcept _) fun _ => trivial
      exact Or.inr (by rw [hend])

theorem Before.of_same {w₁ v₁ : World} (hw : Same w w₁) (h : Before cfg node w₁ v₁) (hv : Same v₁ v) :
    Before cfg node w v := by
  unfold Before
  rcases h with h | h
  · exact Or.inl (hv.ledger.trans (h.trans hw.ledger))
  · exact Or.inr (hv.ledger.trans (h.trans (reconcile_same cfg node hw).2.ledger))

theorem reaches_units (h : Reaches (units cfg node) w v) : Before cfg node w v := by
  have hunit := reconcile_straight cfg node.text
  rcases Reaches.of_both apart hunit.uses (head_aside cfg) h with ⟨u, hu, hv⟩ | ⟨y, head, u, u', hy, hu, hd⟩
  · exact (reaches_reconcile hu).of_same (Same.refl w) hv
  · rw [reaches_done hd]
    unfold Before
    rw [hy.run_eq hunit]
    exact Or.inr hu.ledger

theorem reaches_body (h : Reaches (body cfg node) w v) : Before cfg node w v := by
  rw [body_eq] at h
  rcases reaches_bind h with h | ⟨o, w₁, hp, h⟩
  · exact Or.inl (reaches_aside (prepare_aside node).uses h).ledger
  · obtain ⟨-, hw⟩ := ends_prepare hp
    cases o with
    | none =>
      rw [reaches_done h]
      exact Or.inl hw.ledger
    | some b =>
      rcases reaches_bind h with h | ⟨r, w₂, hu, h⟩
      · exact (reaches_units h).of_same hw (Same.refl v)
      · have hrest : Same w₂ v := reaches_aside (report_aside cfg b r) h
        obtain ⟨_, _, -, -, hunit⟩ := ends_units hu
        have hbefore : Before cfg node w₁ w₂ := Or.inr hunit.ledger
        exact hbefore.of_same hw hrest

/-- Wherever a cycle is given up, the ledger is the one it found or the one its unit leaves. -/
theorem reaches_collect (h : Reaches (collect cfg node) w v) : Before cfg node w v := by
  rcases reaches_withLock h with rfl | ⟨v', hbody, hv⟩
  · exact Or.inl rfl
  · have hlast : Same v' v := by
      rcases hv with rfl | rfl
      · exact Same.refl v
      · exact same_after _ trivial
    exact (reaches_body hbody).of_same (same_acquire .cycle) hlast

end NodeGauge.Cycle
