/-
  NodeGauge.Proofs.Cycle.Pruned — the tree of an interval that was folded in can be thrown
  away. Two aggregators go on from one ledger beside each other (`Abreast`): the same calls
  come, take turns at the same places and are given up, and what changes besides is the same
  in both but for one file, the tree of a handled interval. Either may find it gone, broken
  or rewritten, at any time. The registry marks the interval as claimed throughout.

  Neither asks for that file (`within_collect`), so a turn that one takes the other can take
  and is told the same (`Together.turn`): they have the same calls, the same history and the
  same ledger wherever they stand (`pruned_unnoticed`).
-/

import NodeGauge.Proofs.Cycle.Serial
import NodeGauge.Proofs.Rewards.Pruned

namespace NodeGauge.Cycle

open Job
open NodeGauge.Rewards (Spares Told Marked treeFile told_reply within_reconcile within_ofExcept)

/-! ## Worlds that differ in one file -/

/-- What may change besides cycles is the same, but for one file. -/
structure Besides (p : Text) (w v : World) : Prop where
  chain : v.outside.chain = w.outside.chain
  beacon : v.outside.beacon = w.outside.beacon
  files : ∀ q, q ≠ p → v.outside.files q = w.outside.files q
  snapshot : v.memory.snapshot = w.memory.snapshot
  total : v.memory.total = w.memory.total
  shown : v.memory.shown = w.memory.shown
  exiting : v.memory.exiting = w.memory.exiting
  others : ∀ l, l ≠ .cycle → v.memory.held.count l = w.memory.held.count l
  log : v.log = w.log

/-- All is the same, but for one file. -/
structure Twin (p : Text) (w v : World) : Prop extends Drift w v, Besides p w v

variable {cfg : Settings} {node : Address} {i : Nat} {p : Text} {w w' v v' u u' : World}

theorem Besides.symm (h : Besides p w v) : Besides p v w :=
  ⟨h.chain.symm, h.beacon.symm, fun q hq => (h.files q hq).symm, h.snapshot.symm, h.total.symm, h.shown.symm,
    h.exiting.symm, fun l hl => (h.others l hl).symm, h.log.symm⟩

theorem Twin.symm (h : Twin p w v) : Twin p v w :=
  ⟨⟨h.ledger.symm, h.pool.symm, h.locks.symm, h.history.symm⟩, h.toBesides.symm⟩

theorem Twin.held (h : Twin p w v) (l : Lock) : v.memory.held.count l = w.memory.held.count l := by
  by_cases hl : l = .cycle
  · rw [hl]
    exact h.locks
  · exact h.others l hl

/-- Beside each other they drift to where they are alike again. -/
theorem Twin.drift (h : Twin p w w') (d : Drift w u) (d' : Drift w' u') (hb : Besides p u u') : Twin p u u' where
  toBesides := hb
  ledger := d'.ledger.trans (h.ledger.trans d.ledger.symm)
  pool := d'.pool.trans (h.pool.trans d.pool.symm)
  locks := d'.locks.trans (h.locks.trans d.locks.symm)
  history := d'.history.trans (h.history.trans d.history.symm)

theorem Twin.ready (h : Twin p w v) (q : Ask) : q.ready v.memory = q.ready w.memory := by
  cases q with
  | acquire l => rw [Bool.eq_iff_iff, ready_acquire_iff, ready_acquire_iff, h.held]
  | _ => rfl

theorem Twin.reply (h : Twin p w v) {q : Ask} (hq : Spares p q) : q.reply v = q.reply w := by
  cases q with
  | call c => cases c <;> simp only [Ask.reply, h.chain]
  | file path => exact h.files path hq
  | get e => simp only [Ask.reply, World.gets, h.history, h.beacon]
  | snapshot => exact h.snapshot
  | total => exact h.total
  | ledger => exact h.ledger
  | commit infos block => simp only [Ask.reply, h.ledger]
  | rewardsPool => exact h.pool
  | shown => exact h.shown
  | exiting => exact h.exiting
  | _ => rfl

theorem Twin.after (h : Twin p w v) {q : Ask} (hq : Spares p q) : Twin p (w.after q) (v.after q) := by
  have hheld : ∀ l, (v.after q).memory.held.count l = (w.after q).memory.held.count l := by
    intro l
    cases q with
    | acquire l' => simp only [World.after, Ask.effect, List.count_cons, h.held]
    | release l' => simp only [World.after, Ask.effect, List.count_erase, h.held]
    | _ => exact h.held l
  have hhistory : (v.after q).history = (w.after q).history := by
    simp only [World.after, h.history, h.reply hq]
  have hlog : (v.after q).log = (w.after q).log := by
    cases q <;> simp only [World.after, Ask.line?, h.ledger, h.log]
  cases q with
  | commit infos block =>
    exact { h with
      ledger := by simp only [World.after, Ask.effect, h.ledger]
      history := hhistory
      log := hlog }
  | install s t => exact { h with snapshot := rfl, total := rfl, history := hhistory }
  | keepRewardsPool a => exact { h with pool := rfl, history := hhistory }
  | display m => exact { h with shown := rfl, history := hhistory }
  | exit => exact { h with exiting := rfl, history := hhistory }
  | acquire l => exact { h with locks := hheld .cycle, others := fun l _ => hheld l, history := hhistory }
  | release l => exact { h with locks := hheld .cycle, others := fun l _ => hheld l, history := hhistory }
  | _ => exact { h with history := hhistory, log := hlog }

/-- What spares the file goes on alike in both. -/
theorem alikeFor_twin : AlikeFor (Spares p) (Twin p) where
  ready q _ _ _ h := h.ready q
  reply _ _ _ hq h := h.reply hq
  after _ _ _ hq h := h.after hq

/-! ## A cycle does not ask for the tree -/

theorem within_body (cfg : Settings) (node : Address) (i : Nat) :
    (body cfg node).Within (Told cfg node.text i) (Spares (treeFile cfg i)) fun _ => True := by
  have hpeeks : ∀ q, Peeks q → Spares (treeFile cfg i) q := fun q h => by cases q <;> trivial
  have hrequests : ∀ q, Beacon.Requests q → Spares (treeFile cfg i) q := fun q h => by cases q <;> trivial
  have hreports : ∀ q, Reports q → Spares (treeFile cfg i) q := fun q h => by cases q <;> trivial
  rw [body_eq]
  refine within_seq (within_of_uses ((prepare_peeks node).uses.mono hpeeks)) fun o => ?_
  cases o with
  | none => trivial
  | some b =>
    have hhead := (Beacon.head_requests cfg).mono hrequests
    refine within_seq ⟨_, _, within_reconcile cfg node.text i, within_of_uses hhead, fun _ _ _ _ => trivial⟩ fun r => ?_
    exact within_of_uses ((report_reports cfg b r).uses.mono hreports)

theorem within_collect (cfg : Settings) (node : Address) (i : Nat) :
    (collect cfg node).Within (Told cfg node.text i) (Spares (treeFile cfg i)) fun _ => True := by
  rw [collect_opens]
  refine ⟨trivial, fun _ _ => within_seq (within_attempt (within_body cfg node i)) fun r => ?_⟩
  exact ⟨trivial, fun _ _ => within_ofExcept trivial⟩

/-! ## Turns by the place they are taken at -/

variable {sides : List Side} {c c' c'' : Call} {front back : List Call}

/-- A turn of a call, with the place in the call that it is taken at. -/
inductive Call.TurnAt (sides : List Side) : Call → World → Call → World → Prop where
  | step {left left' : Job (Option Metrics)} {seen new : List Exchange} {w v : World} (h : StepAt sides left w left' v)
    (hnew : v.history = new ++ w.history) : TurnAt sides ⟨left, seen⟩ w ⟨left', new ++ seen⟩ v

theorem Call.turn_iff_turnAt : c.Turn w c' v ↔ ∃ sides, c.TurnAt sides w c' v := by
  constructor
  · rintro ⟨s, hnew⟩
    obtain ⟨sides, s⟩ := step_iff_stepAt.mp ⟨_, s⟩
    exact ⟨sides, .step s hnew⟩
  · rintro ⟨sides, ⟨s, hnew⟩⟩
    obtain ⟨_, s⟩ := step_iff_stepAt.mpr ⟨sides, s⟩
    exact .step s hnew

theorem Call.TurnAt.unique (t : c.TurnAt sides w c' v) (t' : c.TurnAt sides w c'' u) : c'' = c' ∧ u = v := by
  obtain ⟨s, hnew⟩ := t
  generalize hc : Call.mk _ _ = d at t'
  obtain ⟨s', hnew'⟩ := t'
  obtain ⟨rfl, rfl⟩ := Call.mk.inj hc
  obtain ⟨rfl, rfl⟩ := s.unique s'
  obtain rfl := List.append_cancel_right (hnew'.symm.trans hnew)
  exact ⟨rfl, rfl⟩

/-! ## Two aggregators beside each other -/

/-- Both begin with the ledger, and their calls go on in the same way. A call that is given
    up lets go of its lock if it has it. -/
inductive Abreast (cfg : Settings) (node : Address) (l : Rewards.Ledger) (i : Nat) :
    Collecting → Collecting → Prop where
  | start {w w' : World} (hl : w.memory.ledger = l) (hw : Twin (treeFile cfg i) w w') (hm : Marked cfg node.text i w) :
    Abreast cfg node l i ⟨[], w⟩ ⟨[], w'⟩
  | arrive {cs cs' : List Call} {w w' : World} (h : Abreast cfg node l i ⟨cs, w⟩ ⟨cs', w'⟩) :
    Abreast cfg node l i ⟨cs ++ [.fresh cfg node], w⟩ ⟨cs' ++ [.fresh cfg node], w'⟩
  | turn {front back front' back' : List Call} {c d c' d' : Call} {w w' v v' : World} {sides : List Side}
    (h : Abreast cfg node l i ⟨front ++ c :: back, w⟩ ⟨front' ++ d :: back', w'⟩)
    (hplace : front'.length = front.length)
    (t : c.TurnAt sides w c' v) (t' : d.TurnAt sides w' d' v') :
    Abreast cfg node l i ⟨front ++ c' :: back, v⟩ ⟨front' ++ d' :: back', v'⟩
  | leave {front back front' back' : List Call} {c d : Call} {w w' : World}
    (h : Abreast cfg node l i ⟨front ++ c :: back, w⟩ ⟨front' ++ d :: back', w'⟩)
    (hplace : front'.length = front.length)
    (hc : c.Away cfg node) : Abreast cfg node l i ⟨front ++ back, w⟩ ⟨front' ++ back', w'⟩
  | giveUp {front back front' back' : List Call} {c d : Call} {w w' : World}
    (h : Abreast cfg node l i ⟨front ++ c :: back, w⟩ ⟨front' ++ d :: back', w'⟩)
    (hplace : front'.length = front.length)
    (hc : c.Inside) :
    Abreast cfg node l i ⟨front ++ back, w.after (.release .cycle)⟩ ⟨front' ++ back', w'.after (.release .cycle)⟩
  | drift {cs cs' : List Call} {w w' u u' : World} (h : Abreast cfg node l i ⟨cs, w⟩ ⟨cs', w'⟩) (d : Drift w u)
    (d' : Drift w' u') (hb : Besides (treeFile cfg i) u u') (hm : Marked cfg node.text i u) :
    Abreast cfg node l i ⟨cs, u⟩ ⟨cs', u'⟩

/-- How they stand: no call of either has anything left that asks for the tree. -/
structure Together (cfg : Settings) (node : Address) (i : Nat) (s s' : Collecting) : Prop where
  calls : s'.calls = s.calls
  twin : Twin (treeFile cfg i) s.world s'.world
  handled : (i : Int) ∈ s.world.memory.ledger.handled
  marked : Marked cfg node.text i s.world
  within : ∀ c ∈ s.calls, c.left.Within (Told cfg node.text i) (Spares (treeFile cfg i)) fun _ => True

variable {s s' : Collecting}

theorem Together.symm (h : Together cfg node i s s') : Together cfg node i s' s where
  calls := h.calls.symm
  twin := h.twin.symm
  handled := h.twin.ledger ▸ h.handled
  marked := h.marked.congr h.twin.chain
  within := h.calls ▸ h.within

theorem mem_handled_after {k : Int} (h : k ∈ w.memory.ledger.handled) (q : Ask) :
    k ∈ (w.after q).memory.ledger.handled := by
  cases q with
  | commit infos block => exact Rewards.mem_handled_commit h infos block
  | _ => exact h

/-- The step lemma: a turn that a call takes in the first it can take in the second, at the
    same place and with the same replies. -/
theorem Together.turn (h : Together cfg node i ⟨front ++ c :: back, w⟩ s') (t : c.TurnAt sides w c' v) :
    ∃ v', c.TurnAt sides s'.world c' v' ∧ Together cfg node i ⟨front ++ c' :: back, v⟩ ⟨front ++ c' :: back, v'⟩ := by
  have hwithin := List.forall_mem_append.mp h.within
  obtain ⟨hc, hback⟩ := List.forall_mem_cons.mp hwithin.2
  cases t with
  | @step left left' seen new _ _ step hnew =>
    obtain ⟨hleft, v', step', hv, hvw⟩ := hc.step alikeFor_twin (told_reply h.handled h.marked) h.twin step
    have hnew' : v'.history = new ++ s'.world.history := by
      rw [hv.history, hnew, h.twin.history]
    refine ⟨v', .step step' hnew', rfl, hv, ?_, ?_, ?_⟩
    · rcases hvw with rfl | ⟨q, rfl⟩
      · exact h.handled
      · exact mem_handled_after h.handled q
    · rcases hvw with rfl | ⟨q, rfl⟩
      · exact h.marked
      · exact h.marked.congr rfl
    · exact List.forall_mem_append.mpr ⟨hwithin.1, List.forall_mem_cons.mpr ⟨hleft, hback⟩⟩

/-- A call that is not there any more. -/
theorem Together.drop (h : Together cfg node i ⟨front ++ c :: back, w⟩ ⟨front ++ c :: back, w'⟩) :
    Together cfg node i ⟨front ++ back, w⟩ ⟨front ++ back, w'⟩ where
  calls := rfl
  twin := h.twin
  handled := h.handled
  marked := h.marked
  within c hc := h.within c (((List.sublist_cons_self _ back).append_left front).subset hc)

/-- At the same place they have the same call. -/
theorem Together.place {front' back' : List Call} {d : Call}
    (h : Together cfg node i ⟨front ++ c :: back, w⟩ ⟨front' ++ d :: back', w'⟩)
    (hplace : front'.length = front.length) :
    front' = front ∧ d = c ∧ back' = back := by
  obtain ⟨hfront, hrest⟩ := List.append_inj h.calls hplace
  obtain ⟨hc, hback⟩ := List.cons.inj hrest
  exact ⟨hfront, hc, hback⟩

theorem Abreast.together {l : Rewards.Ledger} (hi : (i : Int) ∈ l.handled) (h : Abreast cfg node l i s s') :
    Together cfg node i s s' := by
  induction h with
  | start hl hw hm => exact ⟨rfl, hw, hl.symm ▸ hi, hm, fun c hc => (List.not_mem_nil hc).elim⟩
  | arrive _ ih =>
    refine ⟨congrArg (· ++ [_]) ih.calls, ih.twin, ih.handled, ih.marked, ?_⟩
    refine List.forall_mem_append.mpr ⟨ih.within, fun c hc => ?_⟩
    rw [List.mem_singleton.mp hc]
    exact within_collect cfg node i
  | turn _ hplace t t' ih =>
    obtain ⟨rfl, rfl, rfl⟩ := ih.place hplace
    obtain ⟨v, tv, hv⟩ := ih.turn t
    obtain ⟨rfl, rfl⟩ := tv.unique t'
    exact hv
  | leave _ hplace _ ih =>
    obtain ⟨rfl, rfl, rfl⟩ := ih.place hplace
    exact ih.drop
  | giveUp _ hplace _ ih =>
    obtain ⟨rfl, rfl, rfl⟩ := ih.place hplace
    have hdrop := ih.drop
    exact { hdrop with
      twin := hdrop.twin.after trivial
      handled := mem_handled_after hdrop.handled _
      marked := hdrop.marked.congr rfl }
  | drift _ d d' hb hm ih =>
    exact ⟨ih.calls, ih.twin.drift d d' hb, d.ledger.symm ▸ ih.handled, hm, ih.within⟩

/-- What can be done next in the first can be done next in the second. -/
theorem Together.exists_turn (h : Together cfg node i s s') (hcalls : s.calls = front ++ c :: back)
    (t : c.Turn s.world c' v) : ∃ v', c.Turn s'.world c' v' := by
  obtain ⟨cs, w⟩ := s
  subst hcalls
  obtain ⟨sides, t⟩ := Call.turn_iff_turnAt.mp t
  obtain ⟨v', t', -⟩ := h.turn t
  exact ⟨v', Call.turn_iff_turnAt.mpr ⟨sides, t'⟩⟩

/-- Behind any run of cycles the tree of a handled interval may be whatever it is: of two
    aggregators that go on abreast each has the calls of the other, those that have ended
    with the same results, the same ledger and the same history, so they said the same and
    made the same calls to the chain. And each turn of a call that is possible in one is
    possible in the other. -/
theorem pruned_unnoticed {turns : List Turn} {l : Rewards.Ledger} {k : Int} (h : Run cfg node turns l)
    (hk : k ∈ l.handled) (ha : Abreast cfg node l k.toNat s s') :
    s'.calls = s.calls ∧ s'.world.memory.ledger = s.world.memory.ledger ∧ s'.world.history = s.world.history ∧
      s'.world.notes = s.world.notes ∧ s'.world.calls = s.world.calls ∧
      ∀ front c back c', s.calls = front ++ c :: back →
        ((∃ v, c.Turn s.world c' v) ↔ ∃ v', c.Turn s'.world c' v') := by
  obtain ⟨_, -, _, -, hnonneg, -⟩ := (run_grows h).2 k hk
  have htogether := ha.together (i := k.toNat) (by rwa [Int.toNat_of_nonneg hnonneg])
  have hhistory := htogether.twin.history
  refine ⟨htogether.calls, htogether.twin.ledger, hhistory, ?_, ?_, fun front c back c' hcalls => ⟨?_, ?_⟩⟩
  · unfold World.notes
    rw [htogether.twin.log]
  · unfold World.calls
    rw [hhistory]
  · rintro ⟨v, t⟩
    exact htogether.exists_turn hcalls t
  · rintro ⟨v, t⟩
    exact htogether.symm.exists_turn (htogether.calls.trans hcalls) t

/-! ### The tree of a node that was paid -/

theorem Call.TurnAt.outside (t : c.TurnAt sides w c' v) : v.outside = w.outside := by
  obtain ⟨s, -⟩ := t
  obtain ⟨_, s⟩ := step_iff_stepAt.mpr ⟨sides, s⟩
  rcases (s.uses (uses_any _)).2 with rfl | ⟨q, -, rfl⟩ <;> rfl

/-- Any steps of a call, taken in both. -/
theorem Abreast.steps {l : Rewards.Ledger} (hi : (i : Int) ∈ l.handled)
    (h : Abreast cfg node l i ⟨front ++ c :: back, w⟩ ⟨front ++ c :: back, w'⟩) {j : Job (Option Metrics)}
    (hs : Steps c.left w j v) :
    ∃ c' v', Abreast cfg node l i ⟨front ++ c' :: back, v⟩ ⟨front ++ c' :: back, v'⟩ ∧ c'.left = j ∧
      v.outside = w.outside ∧ v'.outside = w'.outside := by
  induction hs with
  | refl => exact ⟨c, w', h, rfl, rfl, rfl⟩
  | tail _ s ih =>
    obtain ⟨c₁, v₁, h₁, rfl, hw, hw'⟩ := ih h
    obtain ⟨c₂, t, hleft⟩ := Call.exists_turn s
    obtain ⟨sides, t⟩ := Call.turn_iff_turnAt.mp t
    obtain ⟨v₂, t', -⟩ := (h₁.together hi).turn t
    exact ⟨c₂, v₂, .turn h₁ rfl t t', hleft, t.outside.trans hw, t'.outside.trans hw'⟩

/-- The world behind the cycle that paid the node, without the tree. -/
def prunedWorld : World where
  outside := { (paidWorld Beacon.fineBeacon none paidLedger).outside with
    files := fun q => if q = treeFile {} 0 then .error .missing else .ok paidTree.toUtf8 }
  memory := (paidWorld Beacon.fineBeacon none paidLedger).memory

theorem twin_prunedWorld : Twin (treeFile {} 0) (paidWorld Beacon.fineBeacon none paidLedger) prunedWorld where
  ledger := rfl
  pool := rfl
  locks := rfl
  history := rfl
  chain := rfl
  beacon := rfl
  files := fun _ hq => if_neg hq
  snapshot := rfl
  total := rfl
  shown := rfl
  exiting := rfl
  others := fun _ _ => rfl
  log := rfl

/-- The tree is gone behind the cycle that folded the interval in, and the next cycle emits
    what was paid all the same. -/
theorem pruned_unnoticed_missing :
    ∃ turns s s' c m, Run {} payee turns paidLedger ∧ (0 : Int) ∈ paidLedger.handled ∧
      Abreast {} payee paidLedger (0 : Int).toNat s s' ∧
      s.world.outside.files (treeFile {} 0) = .ok paidTree.toUtf8 ∧
      s'.world.outside.files (treeFile {} 0) = .error .missing ∧
      s.calls = [c] ∧ s'.calls = [c] ∧ c.left = .done (some m) ∧
      m.cumulativeRplRewards = 3 ∧ m.claimedEthRewards = 2 ∧
      s'.world.memory.ledger = s.world.memory.ledger := by
  have hhandled : (0 : Int) ∈ paidLedger.handled := List.mem_singleton.mpr rfl
  obtain ⟨x, v₀, h₀⟩ := exists_ends_collect (w := paidWorld Beacon.fineBeacon none .empty) {} payee rfl
  have hv₀ : v₀.memory.ledger = paidLedger := paidWorld_collect Beacon.fineBeacon none (Or.inl rfl) h₀
  have hrun : Run {} payee [⟨paidWorld Beacon.fineBeacon none .empty, v₀⟩] v₀.memory.ledger := .next .start h₀.reaches
  rw [hv₀] at hrun
  obtain ⟨m, hverdict⟩ := paidWorld_emits none (Or.inr rfl)
  obtain ⟨v, j, hsteps, hj⟩ := exists_ends_collect_iff.mpr ⟨rfl, hverdict.symm⟩
  have hmarked : Marked {} payee.text 0 (paidWorld Beacon.fineBeacon none paidLedger) := by
    intro word hword
    cases (paidWorld_bitmap Beacon.fineBeacon none paidLedger 0).symm.trans hword
    decide
  have harrive : Abreast {} payee paidLedger 0 ⟨[] ++ .fresh {} payee :: [], _⟩ ⟨[] ++ .fresh {} payee :: [], _⟩ :=
    .arrive (.start rfl twin_prunedWorld hmarked)
  obtain ⟨c, v', ha, rfl, hout, hout'⟩ := harrive.steps hhandled hsteps
  obtain ⟨hcalls, hledger, -⟩ := pruned_unnoticed hrun hhandled ha
  obtain ⟨hrpl, heth⟩ := paidWorld_tells _ none (Or.inr rfl) ⟨c.left, hsteps, hj⟩
  refine ⟨_, _, _, c, m, hrun, hhandled, ha, ?_, ?_, rfl, hcalls, eq_done_of_outcome hj, hrpl, heth, hledger⟩
  · simp only [hout]
    rfl
  · simp only [hout', prunedWorld, if_pos]

end NodeGauge.Cycle
