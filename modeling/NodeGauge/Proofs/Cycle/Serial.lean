/-
  NodeGauge.Proofs.Cycle.Serial — any number of cycles may be asked for at once, and they
  are run one after another. The calls take turns in any order, and between any two turns
  everything around them may change (`Drift`) but what cycles alone change: the ledger, the
  address of the contract that pays the rewards, their lock and the history. A request that
  a call has left running is around them too: it asks the beacon node and nothing else
  (`left_running`), and what that answers next may have changed by it.

  A call has its lock from its first ask to its last, so of all calls one at most is under
  way (`Stands`). What happened is then that cycles were run, each alone, from one end of
  the history to the other (`Serial`): the same calls with the same replies, the same
  commits and the same results.

  A cycle that is alone has the ledger to itself, so what is sure of it (`sure_collect`) is
  true of every call: `collects_serialise`.
-/

import Mathlib.Logic.Relation
import NodeGauge.Proofs.Cycle.Siblings
import NodeGauge.Proofs.Cycle.Sure

namespace NodeGauge.Cycle

open Job
open Relation (ReflTransGen)

/-! ## Calls -/

/-- A call for a cycle: what is left of it, and the exchanges it made, the latest first. -/
structure Call where
  left : Job (Option Metrics)
  seen : List Exchange

namespace Call

def fresh (cfg : Settings) (node : Address) : Call := ⟨collect cfg node, []⟩

def ended (c : Call) : Bool := c.left.outcome?.isSome

/-- One step of a call; what it adds to the history is the call's own. -/
inductive Turn : Call → World → Call → World → Prop where
  | step {left left' : Job (Option Metrics)} {seen new : List Exchange} {w v : World} {ts : List Task}
    (h : Step left w left' v ts) (hnew : v.history = new ++ w.history) : Turn ⟨left, seen⟩ w ⟨left', new ++ seen⟩ v

theorem exists_turn {c : Call} {j : Job (Option Metrics)} {w v : World} {ts : List Task} (s : Step c.left w j v ts) :
    ∃ c' : Call, c.Turn w c' v ∧ c'.left = j := by
  obtain ⟨left, seen⟩ := c
  obtain ⟨new, hnew⟩ : ∃ new, v.history = new ++ w.history := by
    rcases (s.uses (uses_any _)).2 with rfl | ⟨q, -, rfl⟩
    · exact ⟨[], rfl⟩
    · exact ⟨[_], rfl⟩
  exact ⟨⟨j, new ++ seen⟩, .step s hnew, rfl⟩

end Call

/-- Anything may change but what cycles alone change. -/
structure Drift (w v : World) : Prop where
  ledger : v.memory.ledger = w.memory.ledger
  pool : v.memory.rewardsPool = w.memory.rewardsPool
  locks : v.memory.held.count .cycle = w.memory.held.count .cycle
  history : v.history = w.history

/-- The calls of one aggregator, in the order they came, and their world. -/
structure Collecting where
  calls : List Call
  world : World

variable (cfg : Settings) (node : Address)

/-- What can happen next: a call comes, a call takes its turn, or something changes besides. -/
inductive Collecting.Move : Collecting → Collecting → Prop where
  | arrive {cs : List Call} {w : World} : Move ⟨cs, w⟩ ⟨cs ++ [.fresh cfg node], w⟩
  | turn {front back : List Call} {c c' : Call} {w v : World} (h : c.Turn w c' v) :
    Move ⟨front ++ c :: back, w⟩ ⟨front ++ c' :: back, v⟩
  | drift {cs : List Call} {w v : World} (h : Drift w v) : Move ⟨cs, w⟩ ⟨cs, v⟩

abbrev Collecting.Moves : Collecting → Collecting → Prop := ReflTransGen (Collecting.Move cfg node)

/-! ## One after another -/

/-- Turns of one call, and nothing else but what changes besides. -/
inductive Call.Alone (c : Call) (w : World) : Call → World → Prop where
  | refl : Alone c w c w
  | turn {c' c'' : Call} {v u : World} (h : Alone c w c' v) (t : c'.Turn v c'' u) : Alone c w c'' u
  | drift {c' : Call} {v u : World} (h : Alone c w c' v) (d : Drift v u) : Alone c w c' u

/-- Calls one after another, each alone from its beginning to its end. -/
inductive Serial (w : World) : List Call → World → Prop where
  | nil : Serial w [] w
  | drift {order : List Call} {v u : World} (h : Serial w order v) (d : Drift v u) : Serial w order u
  | call {order : List Call} {c : Call} {v u : World} (h : Serial w order v) (ha : (Call.fresh cfg node).Alone v c u)
    (hc : c.ended = true) : Serial w (order ++ [c]) u

variable {cfg node} {w v u : World} {c c' : Call} {order before after : List Call}

/-- A run of calls, cut at one of them. -/
theorem Serial.split (h : Serial cfg node w (before ++ c :: after) u) :
    ∃ v v', Serial cfg node w before v ∧ (Call.fresh cfg node).Alone v c v' ∧ c.ended = true ∧
      Serial cfg node v' after u := by
  generalize horder : before ++ c :: after = order at h
  induction h generalizing after with
  | nil => simp at horder
  | drift _ d ih =>
    obtain ⟨v, v', hbefore, ha, hc, hafter⟩ := ih horder
    exact ⟨v, v', hbefore, ha, hc, .drift hafter d⟩
  | @call order last v₁ u h ha hlast ih =>
    rcases List.eq_nil_or_concat after with rfl | ⟨rest, x, rfl⟩
    · obtain ⟨rfl, hsame⟩ := List.append_inj' horder rfl
      cases hsame
      exact ⟨v₁, u, h, ha, hlast, .nil⟩
    · rw [List.concat_eq_append, ← List.cons_append, ← List.append_assoc] at horder
      obtain ⟨hrest, hsame⟩ := List.append_inj' horder rfl
      cases hsame
      obtain ⟨v, v', hbefore, hone, hc, hafter⟩ := ih hrest
      rw [List.concat_eq_append]
      exact ⟨v, v', hbefore, hone, hc, .call hafter ha hlast⟩

/-! ## What is sure of a call -/

/-- It is sure of the rest of a call that is alone, with the exchanges it has made. -/
theorem Call.Alone.sure (h : (Call.fresh cfg node).Alone w c v) :
    ∃ seen, c.left.Sure (Emits cfg node w.memory.ledger) seen v.memory.ledger ∧ Noted seen c.seen := by
  induction h with
  | refl => exact ⟨[], sure_collect cfg node _, .refl []⟩
  | turn _ t ih =>
    obtain ⟨seen, hsure, hnoted⟩ := ih
    obtain ⟨s, hnew⟩ := t
    obtain ⟨new, hnew', -, seen', hsure', hnext⟩ := s.sure hsure
    obtain rfl := List.append_cancel_right (hnew'.symm.trans hnew)
    exact ⟨seen', hsure', hnext _ hnoted⟩
  | drift _ d ih =>
    obtain ⟨seen, hsure, hnoted⟩ := ih
    rw [← d.ledger] at hsure
    exact ⟨seen, hsure, hnoted⟩

theorem Call.Alone.settled {m : Metrics} (h : (Call.fresh cfg node).Alone w c v) (hm : c.left = .done (some m)) :
    Settled cfg node w.memory.ledger c.seen v.memory.ledger m := by
  obtain ⟨seen, hsure, hnoted⟩ := h.sure
  rw [hm] at hsure
  exact Settled.noted hnoted hsure

/-- The same of any call in a run of them. -/
theorem Serial.settled {m : Metrics} (h : Serial cfg node w (before ++ c :: after) u) (hm : c.left = .done (some m)) :
    ∃ v v', Serial cfg node w before v ∧ (Call.fresh cfg node).Alone v c v' ∧ Serial cfg node v' after u ∧
      Settled cfg node v.memory.ledger c.seen v'.memory.ledger m := by
  obtain ⟨v, v', hbefore, ha, -, hafter⟩ := h.split
  exact ⟨v, v', hbefore, ha, hafter, ha.settled hm⟩

/-- And what it commits is not handled. -/
theorem Call.Alone.fresh_commit (h : (Call.fresh cfg node).Alone w c v) (t : c.Turn v c' u) {x : Exchange}
    (hx : u.history = x :: v.history) : x.ask.Fresh v.memory.ledger := by
  obtain ⟨seen, hsure, -⟩ := h.sure
  obtain ⟨s, -⟩ := t
  obtain ⟨new, hnew, hfresh, -⟩ := s.sure hsure
  obtain rfl : new = [x] := List.append_cancel_right (hnew.symm.trans hx)
  exact hfresh x (List.mem_singleton.mpr rfl)

/-! ## One under way at most -/

/-- Asks that leave the lock of the cycles alone. -/
def Unlocking : Ask → Prop
  | .acquire .cycle | .release .cycle => False
  | _ => True

def locks (w : World) : Nat := w.memory.held.count .cycle

theorem free_iff : Ask.ready w.memory (.acquire .cycle) = true ↔ locks w = 0 := ready_acquire_iff

theorem locks_acquire : locks (w.after (.acquire .cycle)) = locks w + 1 := held_acquire

theorem locks_release : locks (w.after (.release .cycle)) = locks w - 1 := held_release

theorem locks_after {q : Ask} (hq : Unlocking q) : locks (w.after q) = locks w := by
  apply held_after <;> rintro rfl <;> exact hq

theorem body_unlocking (cfg : Settings) (node : Address) : (body cfg node).Uses Unlocking :=
  body_uses (fun q h => by cases q <;> trivial) (fun q h => by cases q <;> trivial) (fun q h => by cases q <;> trivial)
    (fun q h => by cases q <;> trivial) cfg node

/-- What is left of a call that has its lock, while this is left under it. -/
def underLock (j : Job (Option Metrics)) : Job (Option Metrics) :=
  j.attempt.bind fun r => ask (.release .cycle) fun _ => ofExcept r

theorem collect_opens (cfg : Settings) (node : Address) :
    collect cfg node = ask (.acquire .cycle) fun _ => underLock (body cfg node) := withLock_eq ..

def Call.Inside (c : Call) : Prop := ∃ j, c.left = underLock j ∧ j.Uses Unlocking

theorem Call.Inside.not_ended (h : c.Inside) : c.ended = false := by
  obtain ⟨j, hj, -⟩ := h
  unfold Call.ended
  rw [hj]
  cases j <;> rfl

/-- Its turn is made under the lock, or lets go of it and is its last. -/
theorem Call.Turn.inside (t : c.Turn w c' v) (h : c.Inside) :
    c'.Inside ∧ locks v = locks w ∨ c'.ended = true ∧ locks v = locks w - 1 := by
  obtain ⟨j, hj, hu⟩ := h
  obtain ⟨s, -⟩ := t
  simp only at hj
  subst hj
  rcases step_bind s with ⟨r, -, hlast⟩ | ⟨_, hnext, rfl⟩
  · cases hlast with
    | ask _ => exact Or.inr ⟨by cases r <;> rfl, locks_release⟩
  · obtain ⟨j', hstep, rfl⟩ := step_attempt hnext
    obtain ⟨hu', rfl | ⟨q, hq, rfl⟩⟩ := hstep.uses hu
    · exact Or.inl ⟨⟨j', rfl, hu'⟩, rfl⟩
    · exact Or.inl ⟨⟨j', rfl, hu'⟩, locks_after hq⟩

theorem Call.Turn.enter (t : (Call.fresh cfg node).Turn w c' v) : locks w = 0 ∧ c'.Inside ∧ locks v = 1 := by
  generalize hfresh : Call.fresh cfg node = c at t
  obtain ⟨s, -⟩ := t
  obtain ⟨rfl, -⟩ := Call.mk.inj hfresh
  rw [collect_opens] at s
  cases s with
  | ask hfree =>
    have hzero := free_iff.mp hfree
    exact ⟨hzero, ⟨_, rfl, body_unlocking cfg node⟩, by rw [locks_acquire, hzero]⟩

theorem Call.Turn.not_ended (t : c.Turn w c' v) : c.ended = false := by
  obtain ⟨s, -⟩ := t
  cases s <;> rfl

/-- A call that waits for its turn, or has had it. -/
def Call.Away (cfg : Settings) (node : Address) (c : Call) : Prop := c = .fresh cfg node ∨ c.ended = true

/-- A call that is away can take a turn only when the lock is free, and then begins. -/
theorem Call.Turn.away (t : c.Turn w c' v) (h : c.Away cfg node) : c = .fresh cfg node ∧ locks w = 0 := by
  rcases h with rfl | h
  · exact ⟨rfl, t.enter.1⟩
  · rw [t.not_ended] at h
    cases h

theorem fresh_not_ended (cfg : Settings) (node : Address) : (Call.fresh cfg node).ended = false := rfl

/-- How the calls stand: some were run one after another, and the others wait; or one is
    under way behind those, alone. -/
inductive Stands (cfg : Settings) (node : Address) (w : World) : Collecting → Prop where
  | between {cs order : List Call} {u : World} (hs : Serial cfg node w order u)
    (hp : order.Perm (cs.filter Call.ended)) (haway : ∀ c ∈ cs, c.Away cfg node) (hfree : locks u = 0) :
    Stands cfg node w ⟨cs, u⟩
  | during {front back order : List Call} {c : Call} {u v : World} (hs : Serial cfg node w order u)
    (hp : order.Perm ((front ++ back).filter Call.ended)) (haway : ∀ c' ∈ front ++ back, c'.Away cfg node)
    (ha : (Call.fresh cfg node).Alone u c v) (hin : c.Inside) (hheld : locks v = 1) :
    Stands cfg node w ⟨front ++ c :: back, v⟩

/-- Two calls of one list are the same one, or each is among the others of the other. -/
theorem eq_or_mem_of_append_cons {front back front' back' : List Call}
    (h : front ++ c :: back = front' ++ c' :: back') :
    (front = front' ∧ c = c' ∧ back = back') ∨ c ∈ front' ++ back' := by
  rcases List.append_eq_append_iff.mp h with ⟨between, hfront, hback⟩ | ⟨between, hfront, hback⟩
  · cases between with
    | nil =>
      cases hback
      exact Or.inl ⟨by simpa using hfront.symm, rfl, rfl⟩
    | cons x between =>
      cases hback
      exact Or.inr (by simp [hfront])
  · cases between with
    | nil =>
      cases hback
      exact Or.inl ⟨by simpa using hfront, rfl, rfl⟩
    | cons x between =>
      cases hback
      exact Or.inr (by simp)

theorem perm_filter_ended {front back : List Call} (hc : c.ended = true)
    (hp : order.Perm ((front ++ back).filter Call.ended)) :
    (order ++ [c]).Perm ((front ++ c :: back).filter Call.ended) := by
  have hmiddle : ((front ++ c :: back).filter Call.ended).Perm ((c :: (front ++ back)).filter Call.ended) :=
    List.perm_middle.filter _
  rw [List.filter_cons_of_pos hc] at hmiddle
  exact (List.perm_append_singleton c order).trans ((hp.cons c).trans hmiddle.symm)

theorem away_arrive {cs : List Call} (h : ∀ c ∈ cs, c.Away cfg node) : ∀ c ∈ cs ++ [.fresh cfg node], c.Away cfg node :=
  List.forall_mem_append.mpr ⟨h, List.forall_mem_singleton.mpr (Or.inl rfl)⟩

theorem Stands.arrive {cs : List Call} (h : Stands cfg node w ⟨cs, v⟩) : Stands cfg node w ⟨cs ++ [.fresh cfg node], v⟩ := by
  cases h with
  | between hs hp haway hfree =>
    refine .between hs ?_ (away_arrive haway) hfree
    simpa [List.filter_append, fresh_not_ended] using hp
  | during hs hp haway ha hin hheld =>
    rw [List.append_assoc, List.cons_append]
    refine .during hs ?_ ?_ ha hin hheld
    · simpa [List.filter_append, fresh_not_ended] using hp
    · rw [← List.append_assoc]
      exact away_arrive haway

/-- A turn begins a call, or it is of the one that is under way and may end it. -/
theorem Stands.turn {front back : List Call} (h : Stands cfg node w ⟨front ++ c :: back, v⟩) (t : c.Turn v c' u) :
    Stands cfg node w ⟨front ++ c' :: back, u⟩ := by
  generalize hcs : front ++ c :: back = cs at h
  cases h with
  | between hs hp haway hfree =>
    subst hcs
    obtain ⟨rfl, -⟩ := t.away (haway c (by simp))
    obtain ⟨-, hin, hheld⟩ := t.enter
    refine .during hs ?_ (fun x hx => haway x ?_) (.turn .refl t) hin hheld
    · simpa [List.filter_append, List.filter_cons, fresh_not_ended] using hp
    · rcases List.mem_append.mp hx with hx | hx <;> simp [hx]
  | during hs hp haway ha hin hheld =>
    rcases eq_or_mem_of_append_cons hcs with ⟨rfl, rfl, rfl⟩ | hmem
    · rcases t.inside hin with ⟨hin', hsame⟩ | ⟨hended, hless⟩
      · exact .during hs hp haway (.turn ha t) hin' (hsame.trans hheld)
      · have hfree : locks u = 0 := by rw [hless, hheld]
        refine .between (.call hs (.turn ha t) hended) (perm_filter_ended hended hp) (fun x hx => ?_) hfree
        rcases List.mem_append.mp hx with hx | hx
        · exact haway x (List.mem_append_left _ hx)
        · rcases List.mem_cons.mp hx with rfl | hx
          · exact Or.inr hended
          · exact haway x (List.mem_append_right _ hx)
    · obtain ⟨-, hzero⟩ := t.away (haway c hmem)
      rw [hzero] at hheld
      cases hheld

theorem Stands.drift {cs : List Call} (h : Stands cfg node w ⟨cs, v⟩) (d : Drift v u) : Stands cfg node w ⟨cs, u⟩ := by
  have hlocks : locks u = locks v := d.locks
  cases h with
  | between hs hp haway hfree => exact .between (.drift hs d) hp haway (hlocks.trans hfree)
  | during hs hp haway ha hin hheld => exact .during hs hp haway (.drift ha d) hin (hlocks.trans hheld)

/-- The step lemma: every move leaves the calls standing so. -/
theorem Collecting.Move.stands {s s' : Collecting} (hm : Collecting.Move cfg node s s') (h : Stands cfg node w s) :
    Stands cfg node w s' := by
  cases hm with
  | arrive => exact h.arrive
  | turn t => exact h.turn t
  | drift d => exact h.drift d

theorem Collecting.Moves.stands {s : Collecting} (hfree : locks w = 0) (hm : Collecting.Moves cfg node ⟨[], w⟩ s) :
    Stands cfg node w s := by
  induction hm with
  | refl => exact .between .nil .nil (fun _ hc => (List.not_mem_nil hc).elim) hfree
  | tail _ hm ih => exact hm.stands ih

/-! ## What is in the history -/

/-- What a call that is alone adds to the history is its own. -/
theorem Call.Alone.history (h : c.Alone w c' v) : ∃ new, c'.seen = new ++ c.seen ∧ v.history = new ++ w.history := by
  induction h with
  | refl => exact ⟨[], rfl, rfl⟩
  | turn _ t ih =>
    obtain ⟨new, hseen, hhistory⟩ := ih
    obtain ⟨s, hnew⟩ := t
    simp only at hseen
    exact ⟨_ ++ new, by rw [hseen, List.append_assoc], by rw [hnew, hhistory, List.append_assoc]⟩
  | drift _ d ih =>
    obtain ⟨new, hseen, hhistory⟩ := ih
    exact ⟨new, hseen, d.history.trans hhistory⟩

theorem Call.Alone.history_fresh (h : (Call.fresh cfg node).Alone w c v) : v.history = c.seen ++ w.history := by
  obtain ⟨new, hseen, hhistory⟩ := h.history
  rw [hhistory, hseen]
  simp [Call.fresh]

/-- So the exchanges of a call stand in the history together. -/
theorem Serial.history (h : Serial cfg node w order u) : u.history = order.reverse.flatMap Call.seen ++ w.history := by
  induction h with
  | nil => rfl
  | drift _ d ih => exact d.history.trans ih
  | call _ ha _ ih => rw [ha.history_fresh, ih]; simp

/-! ## Cycles at once -/

/-- No call that takes its turn commits what is handled. -/
theorem Stands.fresh_commit {s s' : Collecting} (h : Stands cfg node w s) (hm : Collecting.Move cfg node s s')
    {x : Exchange} (hx : s'.world.history = x :: s.world.history) : x.ask.Fresh s.world.memory.ledger := by
  have hsame : ∀ {v u : World}, u.history = v.history → u.history ≠ x :: v.history := fun h h' => by
    simp [h] at h'
  cases hm with
  | arrive => exact (hsame rfl hx).elim
  | drift d => exact (hsame d.history hx).elim
  | @turn front back c c' v v' t =>
    generalize hcs : front ++ c :: back = cs at h
    cases h with
    | between hs hp haway hfree =>
      subst hcs
      obtain ⟨rfl, -⟩ := t.away (haway c (by simp))
      exact Call.Alone.refl.fresh_commit t hx
    | during hs hp haway ha hin hheld =>
      rcases eq_or_mem_of_append_cons hcs with ⟨rfl, rfl, rfl⟩ | hmem
      · exact ha.fresh_commit t hx
      · obtain ⟨-, hzero⟩ := t.away (haway c hmem)
        rw [hzero] at hheld
        cases hheld

/-- However many calls there are and in whatever order they take turns, whatever changes
    besides: the calls that have ended were run one after another, each alone, with the
    exchanges and the endings that they have, and behind them at most one is under way. Each
    that emits tells of the ledger as its own commit has left it, and of one claim status. No
    commit is of an interval that is handled. -/
theorem collects_serialise {s : Collecting} (hfree : Ask.ready w.memory (.acquire .cycle) = true)
    (hm : Collecting.Moves cfg node ⟨[], w⟩ s) :
    (∃ order u, Serial cfg node w order u ∧ order.Perm (s.calls.filter Call.ended) ∧
      u.history = order.reverse.flatMap Call.seen ++ w.history ∧
      (s.world = u ∧ (∀ c ∈ s.calls, c.Away cfg node) ∨
        ∃ front c back, s.calls = front ++ c :: back ∧ c.ended = false ∧ (∀ c' ∈ front ++ back, c'.Away cfg node) ∧
          (Call.fresh cfg node).Alone u c s.world ∧ s.world.history = c.seen ++ u.history) ∧
      ∀ before c after m, order = before ++ c :: after → c.left = .done (some m) →
        ∃ v v', Serial cfg node w before v ∧ (Call.fresh cfg node).Alone v c v' ∧ Serial cfg node v' after u ∧
          Settled cfg node v.memory.ledger c.seen v'.memory.ledger m) ∧
    ∀ s' infos block r, Collecting.Move cfg node s s' →
      s'.world.history = ⟨.commit infos block, r⟩ :: s.world.history →
      ∀ info ∈ infos, s.world.memory.ledger.isHandled info.index = false := by
  have hstands := hm.stands (free_iff.mp hfree)
  constructor
  · cases hstands with
    | between hs hp haway _ =>
      refine ⟨_, _, hs, hp, hs.history, Or.inl ⟨rfl, haway⟩, ?_⟩
      rintro before c after m rfl hleft
      exact hs.settled hleft
    | @during front back order c u v hs hp haway ha hin _ =>
      have hopen : c.ended = false := hin.not_ended
      refine ⟨order, u, hs, ?_, hs.history, Or.inr ⟨front, c, back, rfl, hopen, haway, ha, ha.history_fresh⟩, ?_⟩
      · simpa [List.filter_append, List.filter_cons, hopen] using hp
      · rintro before c' after m rfl hleft
        exact hs.settled hleft
  · intro s' infos block r hmove hx
    exact hstands.fresh_commit hmove hx

/-! ### Two calls of a node that is paid -/

theorem moves_steps (front back : List Call) {j : Job (Option Metrics)} (h : Steps c.left w j v) :
    ∃ c', Collecting.Moves cfg node ⟨front ++ c :: back, w⟩ ⟨front ++ c' :: back, v⟩ ∧ c'.left = j := by
  induction h with
  | refl => exact ⟨c, .refl, rfl⟩
  | tail _ s ih =>
    obtain ⟨c₁, hm, rfl⟩ := ih
    obtain ⟨c₂, t, hleft⟩ := Call.exists_turn s
    exact ⟨c₂, hm.tail (.turn t), hleft⟩

/-- A call that waits can be run to an end that a cycle has. -/
theorem moves_ends (front back : List Call) {x : Except Fault (Option Metrics)} (h : Ends (collect cfg node) w x v) :
    ∃ c', Collecting.Moves cfg node ⟨front ++ .fresh cfg node :: back, w⟩ ⟨front ++ c' :: back, v⟩ ∧
      c'.left.outcome? = some x := by
  obtain ⟨j, hsteps, hx⟩ := h
  obtain ⟨c', hm, rfl⟩ := moves_steps (c := .fresh cfg node) front back hsteps
  exact ⟨c', hm, hx⟩

theorem ends_collect_locks {x : Except Fault (Option Metrics)} (h : Ends (collect cfg node) w x v) :
    locks v = locks w := by
  obtain ⟨-, u, hbody, rfl⟩ := ends_withLock.mp h
  have hkept : locks u = locks (w.after (.acquire .cycle)) :=
    hbody.keeps (I := fun v => locks v = _) (fun _ _ hq hv => (locks_after hq).trans hv) (body_unlocking cfg node) rfl
  rw [locks_release, hkept, locks_acquire, Nat.add_sub_cancel]

/-- Both come at once. The first is paid and says so, and the second is run behind it. -/
theorem collects_serialise_paid :
    ∃ s first second m, Collecting.Moves {} payee ⟨[], paidWorld Beacon.fineBeacon none .empty⟩ s ∧
      s.calls = [first, second] ∧ first.left = .done (some m) ∧ m.cumulativeRplRewards = 3 ∧ m.claimedEthRewards = 2 ∧
      ∃ before after u, Serial {} payee (paidWorld Beacon.fineBeacon none .empty) (before ++ first :: after) u ∧
        (before ++ first :: after).Perm [first, second] ∧
        s.world.history = (before ++ first :: after).reverse.flatMap Call.seen ∧
        ∃ l l', Settled {} payee l first.seen l' m := by
  obtain ⟨m, hverdict⟩ := paidWorld_emits none (Or.inl rfl)
  obtain ⟨v, hv⟩ := exists_ends_collect_iff.mpr ⟨rfl, hverdict.symm⟩
  have hlocks : locks v = 0 := ends_collect_locks hv
  obtain ⟨x, v', hv'⟩ := exists_ends_collect {} payee (free_iff.mpr hlocks)
  obtain ⟨first, hfirst, hx⟩ := moves_ends [] [.fresh {} payee] hv
  obtain ⟨second, hsecond, hx'⟩ := moves_ends [first] [] hv'
  have harrive : Collecting.Moves {} payee ⟨[], paidWorld Beacon.fineBeacon none .empty⟩
      ⟨[.fresh {} payee, .fresh {} payee], paidWorld Beacon.fineBeacon none .empty⟩ :=
    (Relation.ReflTransGen.single .arrive).tail .arrive
  have hm := (harrive.trans hfirst).trans hsecond
  have hleft : first.left = .done (some m) := by
    cases hj : first.left <;> rw [hj] at hx <;> cases hx
    rfl
  have hended : ∀ c ∈ [first] ++ [second], c.ended = true := by simp [Call.ended, hx, hx']
  obtain ⟨⟨order, u, hserial, hperm, hhistory, hlast, hemits⟩, -⟩ := collects_serialise rfl hm
  rcases hlast with ⟨rfl, -⟩ | ⟨front, c, back, hcalls, hopen, -⟩
  · rcases ends_collect hv with ⟨hnone, -⟩ | ⟨_, -, hl, he⟩
    · cases hnone
    · obtain ⟨_, -, ht⟩ := he m rfl
      rw [hl, (paidWorld_unit _ none (Or.inl rfl)).2] at ht
      have hboth : order.Perm [first, second] := by simpa [hended] using hperm
      obtain ⟨before, after, rfl⟩ := List.append_of_mem (hboth.mem_iff.mpr (List.mem_cons_self ..))
      obtain ⟨_, _, -, -, -, hsettled⟩ := hemits before first after m rfl hleft
      exact ⟨_, first, second, m, hm, rfl, hleft, ht.rpl, ht.eth, before, after, _, hserial, hboth,
        by simpa [paidWorld] using hhistory, _, _, hsettled⟩
  · have hc : c ∈ front ++ c :: back := List.mem_append_right front (List.mem_cons_self ..)
    rw [← hcalls] at hc
    rw [hended c hc] at hopen
    cases hopen

end NodeGauge.Cycle
