/-
  NodeGauge.Proofs.Cycle.Outcome — a cycle comes to one thing. Its units do not notice each
  other, and the balances of a batch only read, so the order in which they take turns
  decides nothing: what a cycle comes to is read off the world it begins in (`verdict`),
  and a cycle that finds its lock free comes to that and to nothing else
  (`exists_ends_collect_iff`).
-/

import NodeGauge.Proofs.Chain.Steady
import NodeGauge.Proofs.Cycle.Ledger

namespace NodeGauge.Cycle

open Job
open NodeGauge.Rewards (reconcile)

variable {w v : World} {cfg : Settings} {node : Address}

/-! ## The balances -/

/-- Calls are answered by the outside, which no ask changes. -/
theorem apart_calls (Q : Ask → Prop) : Apart (fun w v => v.outside = w.outside) Calls Q where
  refl := fun _ => rfl
  ready := by
    intro q w v hq _ _
    cases q <;> first | rfl | exact hq.elim
  reply := by
    intro q w v hq h
    cases q with
    | call c => cases c <;> simp only [Ask.reply, h]
    | _ => exact hq.elim
  after := fun _ _ _ _ h => h
  aside := fun _ _ _ _ h => h

/-- The balances of a basis at an epoch, as the chain tells them now. -/
def balancesAt (cfg : Settings) (b : Basis) (epoch : Int) (w : World) : Except Fault (List BalanceDetails) :=
  (Minipool.balances cfg.batchSize b.snapshot epoch b.snapshot.block b.minipools).answer w

theorem balancesAt_congr (h : v.outside = w.outside) (b : Basis) (epoch : Int) :
    balancesAt cfg b epoch v = balancesAt cfg b epoch w :=
  ((apart_calls Calls).answer_congr (balances_calls ..).uses h).symm

theorem balancesAt_nil {b : Basis} (h : b.minipools = []) (epoch : Int) : balancesAt {} b epoch w = .ok [] := by
  have hb : Minipool.batches (α := Minipool) 19 [] = [] := by simp [Minipool.batches]
  show ((Minipool.balancesOf _ _ _ (Minipool.batches 19 b.minipools)).run w).1 = .ok []
  rw [h, hb]
  rfl

/-! ## The parts -/

/-- What a cycle comes to once the balances have come to this. -/
def told (b : Basis) (e : Estimates) (unclaimed : Rewards.Unclaimed) (l : Rewards.Ledger) :
    Except Fault (List BalanceDetails) → Except Fault (Option Metrics)
  | .error _ => .ok none
  | .ok balances => some <$> metrics b e unclaimed balances l

/-- What a cycle comes to once its units have come to these. -/
def conclude (cfg : Settings) (b : Basis) (w : World) (l : Rewards.Ledger) :
    Except Fault Rewards.Unclaimed × Except Fault Beacon.Head → Except Fault (Option Metrics)
  | (.ok unclaimed, .ok head) => do
    told b (← estimate b) unclaimed l (balancesAt cfg b head.epoch w)
  | _ => .ok none

theorem conclude_congr (h : v.outside = w.outside) (b : Basis) (l : Rewards.Ledger)
    (r : Except Fault Rewards.Unclaimed × Except Fault Beacon.Head) : conclude cfg b v l r = conclude cfg b w l r := by
  obtain ⟨x, y⟩ := r
  cases x with
  | error f => rfl
  | ok unclaimed =>
    cases y with
    | error f => rfl
    | ok head => simp only [conclude, balancesAt_congr h]

/-- What a cycle does with what the balances came to. -/
def tell (b : Basis) (e : Estimates) (unclaimed : Rewards.Unclaimed) :
    Except Fault (List BalanceDetails) → Job (Option Metrics)
  | .error f => do
    note (.balancesFailed f)
    return none
  | .ok balances => do return some (← metrics b e unclaimed balances (← send .ledger))

theorem ends_tell_eq {b : Basis} {e : Estimates} {unclaimed : Rewards.Unclaimed}
    {r : Except Fault (List BalanceDetails)} {x : Except Fault (Option Metrics)}
    (h : Ends (tell b e unclaimed r) w x v) : x = told b e unclaimed w.memory.ledger r := by
  cases r with
  | error f =>
    have h : Ends (ask (.note (.balancesFailed f)) fun _ => done none) w x v := h
    exact (ends_done.mp (ends_ask.mp h).2).1
  | ok balances =>
    have h : Ends (ask .ledger fun l => (ofExcept (metrics b e unclaimed balances l)).bind fun m => done (some m))
        w x v := h
    have h := (ends_ask.mp h).2
    have hl : Ask.reply w .ledger = w.memory.ledger := rfl
    rw [hl] at h
    simp only [told]
    cases hm : metrics b e unclaimed balances w.memory.ledger with
    | error f =>
      rw [hm] at h
      exact (ends_fail.mp h).1
    | ok m =>
      rw [hm] at h
      exact (ends_done.mp h).1

theorem finish_eq (cfg : Settings) (b : Basis) (unclaimed : Rewards.Unclaimed) (head : Beacon.Head) :
    finish cfg b unclaimed head = (ofExcept (estimate b)).bind fun e =>
      (Minipool.balances cfg.batchSize b.snapshot head.epoch b.snapshot.block b.minipools).attempt.bind
        (tell b e unclaimed) := rfl

theorem ends_finish_eq {b : Basis} {unclaimed : Rewards.Unclaimed} {head : Beacon.Head}
    {x : Except Fault (Option Metrics)} (h : Ends (finish cfg b unclaimed head) w x v) :
    x = conclude cfg b w w.memory.ledger (.ok unclaimed, .ok head) := by
  rw [finish_eq] at h
  simp only [conclude]
  cases he : estimate b with
  | error f =>
    rw [he] at h
    exact (ends_fail.mp h).1
  | ok e =>
    rw [he] at h
    have hcalls := balances_calls cfg.batchSize b.snapshot head.epoch b.snapshot.block b.minipools
    obtain ⟨r, w₁, hb, h⟩ := ends_attempt_bind.mp h
    have hsame : Same w w₁ := ends_aside (hcalls.uses.mono aside_of_calls) hb
    have hr : r = balancesAt cfg b head.epoch w := hb.answer_eq (apart_calls Calls) hcalls
    rw [ends_tell_eq h, hr, hsame.ledger]
    rfl

theorem ends_report_eq {b : Basis} {r : Except Fault Rewards.Unclaimed × Except Fault Beacon.Head}
    {x : Except Fault (Option Metrics)} (h : Ends (report cfg b r) w x v) :
    x = conclude cfg b w w.memory.ledger r := by
  have hfailed : ∀ {f}, Ends (do note (.cycleFailed f); return none) w x v → x = .ok none := by
    intro f h
    have h : Ends (ask (.note (.cycleFailed f)) fun _ => done none) w x v := h
    exact (ends_done.mp (ends_ask.mp h).2).1
  obtain ⟨y, y'⟩ := r
  cases y with
  | error f => exact hfailed h
  | ok unclaimed =>
    cases y' with
    | error f => exact hfailed h
    | ok head => exact ends_finish_eq h

/-! ## The cycle -/

/-- What a cycle comes to with what it starts from. -/
def verdictOn (cfg : Settings) (node : Address) (w : World) : Option Basis → Except Fault (Option Metrics)
  | none => .ok none
  | some b => conclude cfg b w ((reconcile cfg node.text).run w).2.memory.ledger
      ((reconcile cfg node.text).answer w, (Beacon.head cfg).answer w)

/-- What a cycle that begins in the world comes to. -/
def verdict (cfg : Settings) (node : Address) (w : World) : Except Fault (Option Metrics) :=
  verdictOn cfg node w (basis? node w.memory)

/-- Worlds that are one to a cycle that has what it starts from. -/
structure Level (w v : World) : Prop where
  same : Same w v
  seen : ∀ e, Beacon.Seen e w v

theorem Level.refl (w : World) : Level w w := ⟨Same.refl w, fun e => Beacon.Seen.refl e w⟩

theorem Level.trans {u : World} (h : Level w v) (h' : Level v u) : Level w u :=
  ⟨h.same.trans h'.same, fun e => (h.seen e).trans (h'.seen e)⟩

theorem Level.after (h : Level w v) (q : Ask) : Level (w.after q) (v.after q) :=
  ⟨h.same.after q, fun e => (h.seen e).after q⟩

theorem Level.verdictOn (h : Level w v) (cfg : Settings) (node : Address) (o : Option Basis) :
    verdictOn cfg node v o = verdictOn cfg node w o := by
  obtain ⟨ha, hs⟩ := reconcile_same cfg node h.same
  have hh : (Beacon.head cfg).answer v = (Beacon.head cfg).answer w :=
    (apart_head.answer_congr (Beacon.head_requests cfg) h.seen).symm
  cases o with
  | none => rfl
  | some b =>
    unfold Cycle.verdictOn
    simp only [hh, ha, hs.ledger, conclude_congr h.same.outside]

theorem level_acquire (l : Lock) : Level w (w.after (.acquire l)) := ⟨same_acquire l, fun _ => Beacon.seen_after rfl⟩

theorem level_peek {q : Ask} (hq : Peeks q) : Level w (w.after q) :=
  ⟨same_after q (aside_of_peeks q hq), fun _ => Beacon.seen_after (by cases q <;> first | rfl | exact hq.elim)⟩

/-- A lock that is taken changes nothing of what a cycle comes to. -/
theorem verdict_acquire (cfg : Settings) (node : Address) (l : Lock) :
    verdict cfg node (w.after (.acquire l)) = verdict cfg node w :=
  (level_acquire l).verdictOn cfg node (basis? node w.memory)

/-- It is the same whichever fault ends the lookup of the head. -/
theorem conclude_head {y : Except Fault Beacon.Head} {u : World} (h : Ends (Beacon.head cfg) w y u) (b : Basis)
    (l : Rewards.Ledger) (x : Except Fault Rewards.Unclaimed) :
    conclude cfg b w l (x, y) = conclude cfg b w l (x, (Beacon.head cfg).answer w) := by
  have hok := fun found => @Beacon.ends_head_ok_iff w u cfg y h found
  cases y with
  | ok head => rw [(hok head).mp rfl]
  | error f =>
    cases hh : (Beacon.head cfg).answer w with
    | ok head => cases (hok head).mpr hh
    | error f' => cases x <;> rfl

theorem ends_proceed_eq {o : Option Basis} {x : Except Fault (Option Metrics)} (h : Ends (proceed cfg node o) w x v) :
    x = verdictOn cfg node w o := by
  cases o with
  | none => exact (ends_done.mp h).1
  | some b =>
    rcases ends_bind.mp h with ⟨r, w₁, hu, h⟩ | ⟨f, -, hu⟩
    · obtain ⟨y, u, hr, hhead, hs⟩ := ends_units hu
      cases hr
      rw [ends_report_eq h, hs.ledger, conclude_congr (hs.outside.trans (run_outside _ w))]
      exact conclude_head hhead ..
    · obtain ⟨_, _, hr, -⟩ := ends_units hu
      cases hr

theorem ends_body_eq {x : Except Fault (Option Metrics)} (h : Ends (body cfg node) w x v) : x = verdict cfg node w := by
  rw [body_eq] at h
  rcases ends_bind.mp h with ⟨o, w₁, hp, h⟩ | ⟨f, -, hp⟩
  · have hw : Level w w₁ :=
      hp.keeps (I := Level w) (fun _ _ hq hv => hv.trans (level_peek hq)) (prepare_peeks node).uses (Level.refl w)
    cases (ends_prepare hp).1
    rw [ends_proceed_eq h, hw.verdictOn]
    rfl
  · cases (ends_prepare hp).1

/-- A cycle that finds its lock free comes to its verdict, and to nothing else. -/
theorem exists_ends_collect_iff {x : Except Fault (Option Metrics)} :
    (∃ v, Ends (collect cfg node) w x v) ↔
      Ask.ready w.memory (.acquire .cycle) = true ∧ x = verdict cfg node w := by
  have hx : ∀ {x v}, Ends (collect cfg node) w x v → x = verdict cfg node w := by
    intro x v h
    obtain ⟨-, v', hbody, -⟩ := ends_withLock.mp h
    exact (ends_body_eq hbody).trans (verdict_acquire cfg node .cycle)
  constructor
  · intro h
    obtain ⟨v, h⟩ := h
    exact ⟨(ends_withLock.mp h).1, hx h⟩
  · intro h
    obtain ⟨hfree, rfl⟩ := h
    obtain ⟨x, v, h⟩ := exists_ends_collect cfg node hfree
    rw [← hx h]
    exact ⟨v, h⟩

/-! ### A quiet world -/

/-- No interval has ended, and both nodes answer. -/
def quietWorld (snapshot : Snapshot) (total : Option Wei) : World where
  outside := {
    chain := { latestBlock := .ok 100, read := fun _ _ _ => .ok (Chain.word 0) }
    beacon := Beacon.fineBeacon
    files := fun _ => .error .missing }
  memory := { snapshot := some snapshot, total }

/-- The ledger once the rewards unit has found nothing there. -/
def quietLedger : Rewards.Ledger where
  nextBlock := some 101

variable (snapshot : Snapshot) (total : Option Wei)

theorem quietWorld_unit (node : Text) :
    (reconcile {} node).answer (quietWorld snapshot total) = .ok ⟨0, 0⟩ ∧
      ((reconcile {} node).run (quietWorld snapshot total)).2.memory.ledger = quietLedger := by
  have hsteady : Chain.Steady (quietWorld snapshot total).outside.chain 0 :=
    ⟨⟨Chain.word 0, fun _ _ _ => rfl, by decide +kernel, Address.ofNat 0, by decide +kernel⟩⟩
  have hz : Wei.toEther 0 = .ok 0 := by decide +kernel
  have hl : quietLedger = Rewards.Ledger.empty.plus 0 0 [] 100 := by decide +kernel
  have hreadable : Rewards.Readable {} node (quietWorld snapshot total) 0 100 :=
    ⟨hsteady.rewardIndex _, fun h => absurd rfl h, fun i hi => absurd hi (Nat.not_lt_zero i), rfl⟩
  exact (Rewards.reconcile_ok_ledger_iff ..).mpr ⟨0, 100, hreadable, hz, hz, 0, 0, hz, hz, hl⟩

/-- There the snapshot alone decides. -/
theorem quietWorld_verdict (node : Address) :
    verdict {} node (quietWorld snapshot total) =
      match basis? node (quietWorld snapshot total).memory with
      | none => .ok none
      | some b => conclude {} b (quietWorld snapshot total) quietLedger (.ok ⟨0, 0⟩, .ok Beacon.fineHead) := by
  obtain ⟨hu, hl⟩ := quietWorld_unit snapshot total node.text
  have hh : (Beacon.head {}).answer (quietWorld snapshot total) = .ok Beacon.fineHead := Beacon.fineBeacon_head rfl
  unfold verdict verdictOn
  rw [hu, hl, hh]

end NodeGauge.Cycle
