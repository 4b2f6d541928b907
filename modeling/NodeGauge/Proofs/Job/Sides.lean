/-
  NodeGauge.Proofs.Job.Sides — what does not hang on who goes first. The two sides of a
  fork can be exchanged (`Ends.swap`). Sides that do not notice each other each end as they
  can alone (`Ends.of_fork`). A job whose asks do not notice each other at all comes to
  what its run comes to, in whatever order its forks take turns (`Ends.answer_eq`). A pair
  comes to the values of its sides, or to a fault that one of them would come to alone
  (`Ends.of_pair`).

  An ask of one side of a fork may have any number of steps of the other in front of it,
  and that is all that can happen before it (`ends_both_ask`).

  What a job leaves running asks for what the sides of its pairs ask for (`Ticks.leaves`).
-/

import NodeGauge.Job.Tasks
import NodeGauge.Proofs.Job.Endings

namespace NodeGauge.Job

variable {P Q : Ask → Prop} {R S : World → World → Prop} {α β γ : Type}

/-! ## Either side first -/

theorem Steps.swap {l : Job β} {r : Job γ} {k : Except Fault β → Except Fault γ → Job α} {z : Job α} {w w' : World}
    (h : Steps (both l r k) w z w') :
    (∃ l' r', z = both l' r' k ∧ Steps (both r l fun y x => k x y) w (both r' l' fun y x => k x y) w') ∨
      Steps (both r l fun y x => k x y) w z w' := by
  generalize hb : both l r k = b at h
  induction h with
  | refl => exact Or.inl ⟨l, r, hb.symm, .refl⟩
  | tail _ s ih =>
    rcases ih with ⟨l', r', rfl, h⟩ | h
    · cases s with
      | left s => exact Or.inl ⟨_, _, rfl, .tail h (.right s)⟩
      | right s => exact Or.inl ⟨_, _, rfl, .tail h (.left s)⟩
      | join hx hy => exact Or.inr (.tail h (.join (k := fun y x => k x y) hy hx))
    · exact Or.inr (.tail h s)

/-- The sides of a fork can be exchanged. -/
theorem Ends.swap {l : Job β} {r : Job γ} {k : Except Fault β → Except Fault γ → Job α} {z : Except Fault α}
    {w w' : World} (h : Ends (both l r k) w z w') : Ends (both r l fun y x => k x y) w z w' := by
  obtain ⟨j, h, hz⟩ := h
  rcases h.swap with ⟨l', r', rfl, -⟩ | h
  · simp [outcome?] at hz
  · exact ⟨j, h, hz⟩

/-- Sides that do not notice each other each end as they can alone. -/
theorem Ends.of_fork (hR : Apart R P Q) (hS : Apart S Q P) {l : Job β} {r : Job γ} (hl : l.Uses P) (hr : r.Uses Q)
    {z : Except Fault (Except Fault β × Except Fault γ)} {w w' : World} (h : Ends (fork l r) w z w') :
    ∃ x y v u, z = .ok (x, y) ∧ Ends l w x v ∧ R v w' ∧ Ends r w y u ∧ S u w' := by
  obtain ⟨x, y, v, w₁, hx, hv, hz⟩ := Ends.of_both hR hl hr h
  obtain ⟨y', x', u, w₂, hy, hu, hz'⟩ := Ends.of_both hS hr hl h.swap
  obtain ⟨rfl, rfl⟩ := ends_done.mp hz
  obtain ⟨he, rfl⟩ := ends_done.mp hz'
  cases he
  exact ⟨x, y, v, u, rfl, hx, hv, hy, hu⟩

/-! ## Asks that do not notice each other -/

theorem Apart.answer_congr (hR : Apart R P Q) {j : Job α} (hj : j.Uses P) {w v : World} (h : R w v) :
    j.answer w = j.answer v :=
  (run_congr (fun q w v hq h => ⟨hR.reply q w v hq h, hR.after q w v hq h⟩) hj h).1

theorem Apart.run_aside (hR : Apart R P Q) {j : Job α} (hj : j.Uses Q) {w v : World} (h : R w v) : R w (j.run v).2 :=
  run_keeps (I := R w) (fun q v hq hv => hR.aside q w v hq hv) hj h

/-- A fork of them answers what it makes of the answers of its sides. -/
theorem Apart.answer_both (hR : Apart R P P) {l : Job β} {r : Job γ} {k : Except Fault β → Except Fault γ → Job α}
    (hl : l.Uses P) (hr : r.Uses P) (hk : ∀ x y, (k x y).Uses P) (w : World) :
    (both l r k).answer w = (k (l.answer w) (r.answer w)).answer w := by
  have hw : R w (l.run w).2 := hR.run_aside hl (hR.refl w)
  show (k (l.answer w) (r.answer (l.run w).2)).answer (r.run (l.run w).2).2 = _
  rw [← hR.answer_congr hr hw, ← hR.answer_congr (hk _ _) (hR.run_aside hr hw)]

theorem Step.view (hR : Apart R P P) {j j' : Job α} {w w' : World} {ts : List Task} (s : Step j w j' w' ts)
    (hj : j.Uses P) : R w w' := by
  rcases (s.uses hj).2 with rfl | ⟨q, hq, rfl⟩
  · exact hR.refl _
  · exact hR.aside q _ _ hq (hR.refl _)

theorem Step.whole {j j' : Job α} {w w' : World} {ts : List Task} (s : Step j w j' w' ts) (hj : j.Whole P) :
    j'.Whole P := by
  induction s with
  | ask _ => exact hj.2 _
  | left _ ih => exact ⟨ih hj.1, hj.2⟩
  | right _ ih => exact ⟨hj.1, ih hj.2.1, hj.2.2⟩
  | join _ _ => exact hj.2.2 _ _
  | _ => exact hj.elim

/-- No step changes what such a job will answer, if it waits for all it begins. -/
theorem Step.answer_eq (hR : Apart R P P) {j j' : Job α} {w w' : World} {ts : List Task} (s : Step j w j' w' ts)
    (hj : j.Whole P) : j'.answer w' = j.answer w := by
  induction s with
  | ask _ => rfl
  | left s ih =>
    obtain ⟨hl, hr, hk⟩ := hj
    have hk := fun x y => (hk x y).uses
    have hw := s.view hR hl.uses
    rw [hR.answer_both hl.uses hr.uses hk, hR.answer_both (s.whole hl).uses hr.uses hk, ih hl,
      ← hR.answer_congr hr.uses hw, ← hR.answer_congr (hk _ _) hw]
  | right s ih =>
    obtain ⟨hl, hr, hk⟩ := hj
    have hk := fun x y => (hk x y).uses
    have hw := s.view hR hr.uses
    rw [hR.answer_both hl.uses hr.uses hk, hR.answer_both hl.uses (s.whole hr).uses hk, ih hr,
      ← hR.answer_congr hl.uses hw, ← hR.answer_congr (hk _ _) hw]
  | join hx hy =>
    obtain ⟨hl, hr, hk⟩ := hj
    rw [hR.answer_both hl.uses hr.uses fun x y => (hk x y).uses]
    simp only [answer, run_of_outcome hx, run_of_outcome hy]
  | _ => exact hj.elim

theorem Steps.answer_eq (hR : Apart R P P) {j j' : Job α} {w w' : World} (h : Steps j w j' w') (hj : j.Whole P) :
    j'.Whole P ∧ j'.answer w' = j.answer w := by
  induction h with
  | refl => exact ⟨hj, rfl⟩
  | tail _ s ih =>
    obtain ⟨hu, ha⟩ := ih
    exact ⟨s.whole hu, (s.answer_eq hR hu).trans ha⟩

/-- So in any order it comes to what its run comes to. -/
theorem Ends.answer_eq (hR : Apart R P P) {j : Job α} {w w' : World} {x : Except Fault α} (hj : j.Whole P)
    (h : Ends j w x w') : x = j.answer w := by
  obtain ⟨j', h, hx⟩ := h
  rw [← (h.answer_eq hR hj).2, answer, run_of_outcome hx]

/-! ## What a job leaves running -/

theorem Step.leaves {j j' : Job α} {w w' : World} {ts : List Task} (s : Step j w j' w' ts) (hj : j.Leaves P) :
    j'.Leaves P ∧ ∀ t ∈ ts, t.job.Whole P := by
  induction s with
  | ask _ => exact ⟨hj _, nofun⟩
  | left _ ih => exact ⟨⟨(ih hj.1).1, hj.2⟩, (ih hj.1).2⟩
  | right _ ih => exact ⟨⟨hj.1, (ih hj.2.1).1, hj.2.2⟩, (ih hj.2.1).2⟩
  | join _ _ => exact ⟨hj.2.2 _ _, nofun⟩
  | pairLeft _ s ih => exact ⟨⟨s.whole hj.1, hj.2⟩, (ih hj.1.leaves).2⟩
  | pairRight _ s ih => exact ⟨⟨hj.1, s.whole hj.2.1, hj.2.2⟩, (ih hj.2.1.leaves).2⟩
  | meet => exact ⟨hj.2.2 _, nofun⟩
  | quitLeft => exact ⟨hj.2.2 _, List.forall_mem_singleton.mpr hj.2.1⟩
  | quitRight => exact ⟨hj.2.2 _, List.forall_mem_singleton.mpr hj.1⟩

/-- However the job and its tasks take turns, the tasks ask for `P` only. -/
theorem Ticks.leaves {s s' : Running α} (h : Ticks s s') (hj : s.job.Leaves P) (ht : ∀ t ∈ s.tasks, t.job.Whole P) :
    s'.job.Leaves P ∧ ∀ t ∈ s'.tasks, t.job.Whole P := by
  induction h with
  | refl => exact ⟨hj, ht⟩
  | tail _ t ih =>
    obtain ⟨hj, ht⟩ := ih
    cases t with
    | job s =>
      obtain ⟨hj', hleft⟩ := s.leaves hj
      exact ⟨hj', List.forall_mem_append.mpr ⟨ht, hleft⟩⟩
    | task s =>
      obtain ⟨hfront, hback⟩ := List.forall_mem_append.mp ht
      obtain ⟨hrun, hback⟩ := List.forall_mem_cons.mp hback
      refine ⟨hj, List.forall_mem_append.mpr ⟨hfront, List.forall_mem_cons.mpr ⟨s.whole hrun, ?_⟩⟩⟩
      exact List.forall_mem_append.mpr ⟨hback, (s.leaves hrun.leaves).2⟩

/-! ## Pairs -/

/-- The two sides of a pair stand so that it is over, with this. -/
inductive Over : Job β → Job γ → Except Fault (β × γ) → Prop where
  | values {b : β} {c : γ} : Over (done b) (done c) (.ok (b, c))
  | left {f : Fault} {r : Job γ} : Over (fail f) r (.error f)
  | right {l : Job β} {f : Fault} : Over l (fail f) (.error f)

/-- Where its sides do not notice each other, each stands where it could alone, in a world
    that it cannot tell from this one, until the pair is over. -/
theorem Steps.of_pair (hR : Apart R P Q) (hS : Apart S Q P) {l : Job β} {r : Job γ} {k : Except Fault (β × γ) → Job α}
    (hl : l.Uses P) (hr : r.Uses Q) {w w' : World} {z : Job α} (h : Steps (pair l r k) w z w') :
    ∃ l' r' v v' u, (Steps l w l' v ∧ l'.Uses P ∧ R v u) ∧ (Steps r w r' v' ∧ r'.Uses Q ∧ S v' u) ∧
      ((z = pair l' r' k ∧ w' = u) ∨ ∃ x, Over l' r' x ∧ Steps (k x) u z w') := by
  generalize hp : pair l r k = p at h
  induction h with
  | refl => exact ⟨l, r, _, _, _, ⟨.refl, hl, hR.refl _⟩, ⟨.refl, hr, hS.refl _⟩, Or.inl ⟨hp.symm, rfl⟩⟩
  | tail _ s ih =>
    obtain ⟨l', r', v, v', u, hleft, hright, ⟨rfl, rfl⟩ | ⟨x, hx, h⟩⟩ := ih
    · cases s with
      | pairLeft _ s =>
        obtain ⟨hsteps, hl', hv⟩ := hleft
        obtain ⟨hsteps', hr', hv'⟩ := hright
        obtain ⟨v₁, s₁, hv₁⟩ := s.alike hR hl' hv
        obtain ⟨hl₁, hq⟩ := s.uses hl'
        refine ⟨_, r', v₁, v', _, ⟨.tail hsteps s₁, hl₁, hv₁⟩, ⟨hsteps', hr', ?_⟩, Or.inl ⟨rfl, rfl⟩⟩
        rcases hq with rfl | ⟨q, hq, rfl⟩
        · exact hv'
        · exact hS.aside q _ _ hq hv'
      | pairRight _ s =>
        obtain ⟨hsteps, hl', hv⟩ := hleft
        obtain ⟨hsteps', hr', hv'⟩ := hright
        obtain ⟨v₁, s₁, hv₁⟩ := s.alike hS hr' hv'
        obtain ⟨hr₁, hq⟩ := s.uses hr'
        refine ⟨l', _, v, v₁, _, ⟨hsteps, hl', ?_⟩, ⟨.tail hsteps' s₁, hr₁, hv₁⟩, Or.inl ⟨rfl, rfl⟩⟩
        rcases hq with rfl | ⟨q, hq, rfl⟩
        · exact hv
        · exact hR.aside q _ _ hq hv
      | meet => exact ⟨_, _, v, v', _, hleft, hright, Or.inr ⟨_, .values, .refl⟩⟩
      | quitLeft => exact ⟨_, _, v, v', _, hleft, hright, Or.inr ⟨_, .left, .refl⟩⟩
      | quitRight => exact ⟨_, _, v, v', _, hleft, hright, Or.inr ⟨_, .right, .refl⟩⟩
    · exact ⟨l', r', v, v', u, hleft, hright, Or.inr ⟨x, hx, .tail h s⟩⟩

/-- What a pair can come to whose sides would come to these. -/
inductive Joins : Except Fault β → Except Fault γ → Except Fault (β × γ) → Prop where
  | values {b : β} {c : γ} : Joins (.ok b) (.ok c) (.ok (b, c))
  | left {f : Fault} {y : Except Fault γ} : Joins (.error f) y (.error f)
  | right {x : Except Fault β} {f : Fault} : Joins x (.error f) (.error f)

theorem joins_joint (x : Except Fault β) (y : Except Fault γ) : Joins x y (joint x y) := by
  cases x with
  | error f => exact .left
  | ok b =>
    cases y with
    | error f => exact .right
    | ok c => exact .values

/-- There are two values exactly where each side has its own. -/
theorem Joins.eq_ok_iff {x : Except Fault β} {y : Except Fault γ} {z : Except Fault (β × γ)} (h : Joins x y z)
    {b : β} {c : γ} : z = .ok (b, c) ↔ x = .ok b ∧ y = .ok c := by
  cases h <;> simp

/-- A pair of straight jobs that do not notice each other goes on with the two values, or
    with the fault of either. -/
theorem Ends.of_pair (hR : Apart R P Q) (hS : Apart S Q P) {l : Job β} {r : Job γ} {k : Except Fault (β × γ) → Job α}
    (hl : l.Straight P) (hr : r.Straight Q) {z : Except Fault α} {w w' : World} (h : Ends (pair l r k) w z w') :
    ∃ x u, Joins (l.answer w) (r.answer w) x ∧ Ends (k x) u z w' := by
  obtain ⟨j, h, hz⟩ := h
  obtain ⟨l', r', v, v', u, ⟨hsteps, -⟩, ⟨hsteps', -⟩, ⟨rfl, -⟩ | ⟨x, hx, h⟩⟩ := h.of_pair hR hS hl.uses hr.uses
  · simp [outcome?] at hz
  · have hleft : ∀ y, l'.outcome? = some y → l.answer w = y := fun y hy =>
      congrArg Prod.fst (Ends.run_eq hl ⟨l', hsteps, hy⟩)
    have hright : ∀ y, r'.outcome? = some y → r.answer w = y := fun y hy =>
      congrArg Prod.fst (Ends.run_eq hr ⟨r', hsteps', hy⟩)
    refine ⟨x, u, ?_, j, h, hz⟩
    cases hx with
    | values =>
      rw [hleft _ rfl, hright _ rfl]
      exact .values
    | left =>
      rw [hleft _ rfl]
      exact .left
    | right =>
      rw [hright _ rfl]
      exact .right

/-- The run of such a pair goes on with what its sides answer alone. -/
theorem Apart.run_pair (hS : Apart S Q P) {l : Job β} {r : Job γ} (k : Except Fault (β × γ) → Job α)
    (hl : l.Uses P) (hr : r.Uses Q) (w : World) :
    (pair l r k).run w = (k (joint (l.answer w) (r.answer w))).run (r.run (l.run w).2).2 := by
  have hw : S w (l.run w).2 := hS.run_aside hl (hS.refl w)
  show (k (joint (l.answer w) (r.answer (l.run w).2))).run (r.run (l.run w).2).2 = _
  rw [← hS.answer_congr hr hw]

/-! ## One ask beside a job -/

theorem Steps.cases_left_ask {q : Ask} {f : q.Reply → Job β} {r : Job γ} {k : Except Fault β → Except Fault γ → Job α}
    {w w' : World} {z : Job α} (h : Steps (both (ask q f) r k) w z w') :
    (∃ r', z = both (ask q f) r' k ∧ Steps r w r' w') ∨
      ∃ r' v, Steps r w r' v ∧ q.ready v.memory = true ∧ Steps (both (f (q.reply v)) r' k) (v.after q) z w' := by
  generalize hb : both (ask q f) r k = b at h
  induction h with
  | refl => exact Or.inl ⟨r, hb.symm, .refl⟩
  | tail _ s ih =>
    rcases ih with ⟨r', rfl, hr⟩ | ⟨r', v, hr, hq, h⟩
    · cases s with
      | left s =>
        cases s with
        | ask hq => exact Or.inr ⟨r', _, hr, hq, .refl⟩
      | right s => exact Or.inl ⟨_, rfl, .tail hr s⟩
      | join hx _ => simp [outcome?] at hx
    · exact Or.inr ⟨r', v, hr, hq, .tail h s⟩

/-- Before a side's next ask stand any number of steps of the other side, and nothing else. -/
theorem ends_both_ask {q : Ask} {f : q.Reply → Job β} {r : Job γ} {k : Except Fault β → Except Fault γ → Job α}
    {w w' : World} {x : Except Fault α} :
    Ends (both (ask q f) r k) w x w' ↔
      ∃ r' v, Steps r w r' v ∧ q.ready v.memory = true ∧ Ends (both (f (q.reply v)) r' k) (v.after q) x w' := by
  constructor
  · intro h
    obtain ⟨z, h, hx⟩ := h
    rcases h.cases_left_ask with ⟨r', rfl, -⟩ | ⟨r', v, hr, hq, h⟩
    · simp [outcome?] at hx
    · exact ⟨r', v, hr, hq, z, h, hx⟩
  · intro h
    obtain ⟨r', v, hr, hq, z, h, hx⟩ := h
    exact ⟨z, (hr.bothRight _ k).trans (h.head (.left (.ask hq))), hx⟩

end NodeGauge.Job
