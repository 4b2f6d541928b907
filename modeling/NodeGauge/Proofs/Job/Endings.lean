/-
  NodeGauge.Proofs.Job.Endings — how a job can end when the sides of its forks take turns
  in any order (`Ends`). A job that is put together ends as its parts do (`ends_ask`,
  `ends_bind`, `ends_attempt`, `ends_withLock`). A job without a fork has one ending, that
  of its run (`Ends.run_eq`), and any job that waits for no lock has the ending of its run
  among its endings (`ends_run`).

  `Ends.of_both`: a fork whose right side asks for nothing that the left side can notice
  (`Apart`). In whatever order they take turns, the left side ends as it can alone, and what
  it can notice is afterwards as it would be alone.

  The same for a job that is given up on the way, with its outcome left out (`Reaches`).
-/

import NodeGauge.Job.Schedule
import NodeGauge.Proofs.Job.Footprint

namespace NodeGauge.Job

variable {P Q : Ask → Prop}

/-- Some order of the job's steps ends it with the outcome and leaves the world. -/
def Ends {α : Type} (j : Job α) (w : World) (x : Except Fault α) (w' : World) : Prop :=
  ∃ j', Steps j w j' w' ∧ j'.outcome? = some x

/-! ## Steps -/

variable {ts : List Task}

theorem not_step_of_outcome {α : Type} {j j' : Job α} {w w' : World} {x : Except Fault α}
    (h : j.outcome? = some x) : ¬ Step j w j' w' ts := by
  intro s
  cases s <;> simp [outcome?] at h

theorem eq_done_of_outcome {α : Type} {j : Job α} {a : α} (h : j.outcome? = some (.ok a)) : j = done a := by
  cases j <;> cases h
  rfl

theorem eq_fail_of_outcome {α : Type} {j : Job α} {f : Fault} (h : j.outcome? = some (.error f)) : j = fail f := by
  cases j <;> cases h
  rfl

theorem eq_fail_of_failed {α : Type} {j : Job α} (h : j.failed = true) : ∃ f, j = fail f := by
  cases j <;> first | exact ⟨_, rfl⟩ | cases h

theorem Steps.head {α : Type} {j j' j'' : Job α} {w w' w'' : World} (s : Step j w j' w' ts)
    (h : Steps j' w' j'' w'') : Steps j w j'' w'' := by
  induction h with
  | refl => exact .tail .refl s
  | tail _ s' ih => exact .tail (ih s) s'

theorem Steps.trans {α : Type} {j j' j'' : Job α} {w w' w'' : World} (h : Steps j w j' w')
    (h' : Steps j' w' j'' w'') : Steps j w j'' w'' := by
  induction h' with
  | refl => exact h
  | tail _ s ih => exact .tail (ih h) s

theorem Steps.cases_head {α : Type} {j j'' : Job α} {w w'' : World} (h : Steps j w j'' w'') :
    (j'' = j ∧ w'' = w) ∨ ∃ j' w' ts, Step j w j' w' ts ∧ Steps j' w' j'' w'' := by
  induction h with
  | refl => exact Or.inl ⟨rfl, rfl⟩
  | tail _ s ih =>
    rcases ih with ⟨rfl, rfl⟩ | ⟨j₁, w₁, ts, s₁, h₁⟩
    · exact Or.inr ⟨_, _, _, s, .refl⟩
    · exact Or.inr ⟨j₁, w₁, ts, s₁, .tail h₁ s⟩

theorem ends_of_outcome {α : Type} {j : Job α} {w w' : World} {x y : Except Fault α} (hj : j.outcome? = some x) :
    Ends j w y w' ↔ y = x ∧ w' = w := by
  constructor
  · intro h
    obtain ⟨j', h, hy⟩ := h
    rcases h.cases_head with ⟨rfl, rfl⟩ | ⟨_, _, _, s, _⟩
    · exact ⟨Option.some.inj (hy.symm.trans hj), rfl⟩
    · exact absurd s (not_step_of_outcome hj)
  · intro h
    obtain ⟨rfl, rfl⟩ := h
    exact ⟨j, .refl, hj⟩

@[simp] theorem ends_done {α : Type} {a : α} {w w' : World} {x : Except Fault α} :
    Ends (done a) w x w' ↔ x = .ok a ∧ w' = w := ends_of_outcome rfl

@[simp] theorem ends_fail {α : Type} {f : Fault} {w w' : World} {x : Except Fault α} :
    Ends (fail f) w x w' ↔ x = .error f ∧ w' = w := ends_of_outcome rfl

theorem ends_ask {α : Type} {q : Ask} {k : q.Reply → Job α} {w w' : World} {x : Except Fault α} :
    Ends (ask q k) w x w' ↔ q.ready w.memory = true ∧ Ends (k (q.reply w)) (w.after q) x w' := by
  constructor
  · intro h
    obtain ⟨j', h, hx⟩ := h
    rcases h.cases_head with ⟨rfl, rfl⟩ | ⟨_, _, _, s, h⟩
    · simp [outcome?] at hx
    · cases s with
      | ask hq => exact ⟨hq, j', h, hx⟩
  · intro h
    obtain ⟨hq, j', h, hx⟩ := h
    exact ⟨j', h.head (.ask hq), hx⟩

/-! ## Jobs in sequence -/

theorem Step.bind {α β : Type} {j j' : Job α} {w w' : World} (s : Step j w j' w' ts) (f : α → Job β) :
    Step (j.bind f) w (j'.bind f) w' ts := by
  cases s with
  | ask h => exact .ask h
  | left h => exact .left h
  | right h => exact .right h
  | join hl hr => exact .join hl hr
  | pairLeft hr h => exact .pairLeft hr h
  | pairRight hl h => exact .pairRight hl h
  | meet => exact .meet
  | quitLeft => exact .quitLeft
  | quitRight => exact .quitRight

theorem step_bind {α β : Type} {j : Job α} {f : α → Job β} {z : Job β} {w w' : World} (s : Step (j.bind f) w z w' ts) :
    (∃ a, j = done a ∧ Step (f a) w z w' ts) ∨ ∃ j', Step j w j' w' ts ∧ z = j'.bind f := by
  cases j with
  | done a => exact Or.inl ⟨a, rfl, s⟩
  | fail e => exact absurd s (not_step_of_outcome rfl)
  | ask q k =>
    cases s with
    | ask h => exact Or.inr ⟨_, .ask h, rfl⟩
  | both l r k =>
    cases s with
    | left h => exact Or.inr ⟨_, .left h, rfl⟩
    | right h => exact Or.inr ⟨_, .right h, rfl⟩
    | join hl hr => exact Or.inr ⟨_, .join hl hr, rfl⟩
  | pair l r k =>
    cases s with
    | pairLeft hr h => exact Or.inr ⟨_, .pairLeft hr h, rfl⟩
    | pairRight hl h => exact Or.inr ⟨_, .pairRight hl h, rfl⟩
    | meet => exact Or.inr ⟨_, .meet, rfl⟩
    | quitLeft => exact Or.inr ⟨_, .quitLeft, rfl⟩
    | quitRight => exact Or.inr ⟨_, .quitRight, rfl⟩

theorem Steps.bind {α β : Type} {j j' : Job α} {w w' : World} (h : Steps j w j' w') (f : α → Job β) :
    Steps (j.bind f) w (j'.bind f) w' := by
  induction h with
  | refl => exact .refl
  | tail _ s ih => exact .tail ih (s.bind f)

/-- The steps of a sequence are steps of its first part, and once that is done, of the second. -/
theorem steps_bind {α β : Type} {j : Job α} {f : α → Job β} {z : Job β} {w w' : World} (h : Steps (j.bind f) w z w') :
    (∃ j', Steps j w j' w' ∧ z = j'.bind f) ∨ ∃ a v, Steps j w (done a) v ∧ Steps (f a) v z w' := by
  generalize hj : j.bind f = b at h
  induction h with
  | refl => exact Or.inl ⟨j, .refl, hj.symm⟩
  | tail _ s ih =>
    rcases ih with ⟨j', h', rfl⟩ | ⟨a, v, ha, h'⟩
    · rcases step_bind s with ⟨a, rfl, s'⟩ | ⟨j'', s', rfl⟩
      · exact Or.inr ⟨a, _, h', .tail .refl s'⟩
      · exact Or.inl ⟨j'', .tail h' s', rfl⟩
    · exact Or.inr ⟨a, v, ha, .tail h' s⟩

theorem ends_bind {α β : Type} {j : Job α} {f : α → Job β} {w w' : World} {x : Except Fault β} :
    Ends (j.bind f) w x w' ↔
      (∃ a v, Ends j w (.ok a) v ∧ Ends (f a) v x w') ∨ ∃ e, x = .error e ∧ Ends j w (.error e) w' := by
  constructor
  · intro h
    obtain ⟨z, h, hx⟩ := h
    rcases steps_bind h with ⟨j', h', rfl⟩ | ⟨a, v, ha, h'⟩
    · cases j' with
      | done a => exact Or.inl ⟨a, w', ⟨_, h', rfl⟩, ⟨_, .refl, hx⟩⟩
      | fail e => exact Or.inr ⟨e, (Option.some.inj hx).symm, ⟨_, h', rfl⟩⟩
      | ask q k => simp [Job.bind, outcome?] at hx
      | both l r k => simp [Job.bind, outcome?] at hx
      | pair l r k => simp [Job.bind, outcome?] at hx
    · exact Or.inl ⟨a, v, ⟨_, ha, rfl⟩, z, h', hx⟩
  · intro h
    rcases h with ⟨a, v, ⟨j', h, hj⟩, z, h', hx⟩ | ⟨e, rfl, j', h, hj⟩
    · cases j' with
      | done b =>
        cases hj
        exact ⟨z, (h.bind f).trans h', hx⟩
      | _ => simp [outcome?] at hj
    · cases j' with
      | fail b =>
        cases hj
        exact ⟨_, h.bind f, rfl⟩
      | _ => simp [outcome?] at hj

theorem ends_bind_ok {α β : Type} {j : Job α} {f : α → Job β} {w w' : World} {b : β} :
    Ends (j >>= f) w (.ok b) w' ↔ ∃ a v, Ends j w (.ok a) v ∧ Ends (f a) v (.ok b) w' := by
  show Ends (j.bind f) w (.ok b) w' ↔ _
  rw [ends_bind]
  constructor
  · intro h
    rcases h with h | ⟨e, he, _⟩
    · exact h
    · cases he
  · exact Or.inl

theorem step_attempt {α : Type} {j : Job α} {z : Job (Except Fault α)} {w w' : World} (s : Step j.attempt w z w' ts) :
    ∃ j', Step j w j' w' ts ∧ z = j'.attempt := by
  cases j with
  | done a => exact absurd s (not_step_of_outcome rfl)
  | fail e => exact absurd s (not_step_of_outcome rfl)
  | ask q k =>
    cases s with
    | ask h => exact ⟨_, .ask h, rfl⟩
  | both l r k =>
    cases s with
    | left h => exact ⟨_, .left h, rfl⟩
    | right h => exact ⟨_, .right h, rfl⟩
    | join hl hr => exact ⟨_, .join hl hr, rfl⟩
  | pair l r k =>
    cases s with
    | pairLeft hr h => exact ⟨_, .pairLeft hr h, rfl⟩
    | pairRight hl h => exact ⟨_, .pairRight hl h, rfl⟩
    | meet => exact ⟨_, .meet, rfl⟩
    | quitLeft => exact ⟨_, .quitLeft, rfl⟩
    | quitRight => exact ⟨_, .quitRight, rfl⟩

theorem Step.attempt {α : Type} {j j' : Job α} {w w' : World} (s : Step j w j' w' ts) :
    Step j.attempt w j'.attempt w' ts := by
  cases s with
  | ask h => exact .ask h
  | left h => exact .left h
  | right h => exact .right h
  | join hl hr => exact .join hl hr
  | pairLeft hr h => exact .pairLeft hr h
  | pairRight hl h => exact .pairRight hl h
  | meet => exact .meet
  | quitLeft => exact .quitLeft
  | quitRight => exact .quitRight

theorem Steps.attempt {α : Type} {j j' : Job α} {w w' : World} (h : Steps j w j' w') :
    Steps j.attempt w j'.attempt w' := by
  induction h with
  | refl => exact .refl
  | tail _ s ih => exact .tail ih s.attempt

theorem steps_attempt {α : Type} {j : Job α} {z : Job (Except Fault α)} {w w' : World}
    (h : Steps j.attempt w z w') : ∃ j', Steps j w j' w' ∧ z = j'.attempt := by
  generalize hj : j.attempt = b at h
  induction h with
  | refl => exact ⟨j, .refl, hj.symm⟩
  | tail _ s ih =>
    obtain ⟨j', h', rfl⟩ := ih
    obtain ⟨j'', s', rfl⟩ := step_attempt s
    exact ⟨j'', .tail h' s', rfl⟩

theorem ends_attempt {α : Type} {j : Job α} {w w' : World} {x : Except Fault (Except Fault α)} :
    Ends j.attempt w x w' ↔ ∃ y, x = .ok y ∧ Ends j w y w' := by
  constructor
  · intro h
    obtain ⟨z, h, hx⟩ := h
    obtain ⟨j', h', rfl⟩ := steps_attempt h
    cases j' with
    | done a => exact ⟨_, (Option.some.inj hx).symm, _, h', rfl⟩
    | fail e => exact ⟨_, (Option.some.inj hx).symm, _, h', rfl⟩
    | ask q k => simp [Job.attempt, outcome?] at hx
    | both l r k => simp [Job.attempt, outcome?] at hx
    | pair l r k => simp [Job.attempt, outcome?] at hx
  · intro h
    obtain ⟨y, rfl, j', h, hj⟩ := h
    cases j' with
    | done a =>
      cases hj
      exact ⟨_, h.attempt, rfl⟩
    | fail e =>
      cases hj
      exact ⟨_, h.attempt, rfl⟩
    | ask q k => simp [outcome?] at hj
    | both l r k => simp [outcome?] at hj
    | pair l r k => simp [outcome?] at hj

/-- What follows an attempt goes on with whatever it came to. -/
theorem ends_attempt_bind {α β : Type} {j : Job α} {f : Except Fault α → Job β} {w w' : World} {x : Except Fault β} :
    Ends (j.attempt.bind f) w x w' ↔ ∃ y v, Ends j w y v ∧ Ends (f y) v x w' := by
  simp only [ends_bind, ends_attempt]
  constructor
  · intro h
    rcases h with ⟨y, v, ⟨_, hy, hj⟩, h⟩ | ⟨e, -, _, hy, -⟩
    · cases hy
      exact ⟨y, v, hj, h⟩
    · cases hy
  · intro h
    obtain ⟨y, v, hj, h⟩ := h
    exact Or.inl ⟨y, v, ⟨y, rfl, hj⟩, h⟩

@[simp] theorem ends_ofExcept {α : Type} {r x : Except Fault α} {w w' : World} :
    Ends (ofExcept r) w x w' ↔ x = r ∧ w' = w := by
  cases r
  · exact ends_fail
  · exact ends_done

theorem withLock_eq {α : Type} (l : Lock) (j : Job α) :
    withLock l j = ask (.acquire l) fun _ => j.attempt.bind fun r => ask (.release l) fun _ => ofExcept r := rfl

/-- A job under a lock begins when the lock is free, and lets go of it however it ends. -/
theorem ends_withLock {α : Type} {l : Lock} {j : Job α} {w w' : World} {x : Except Fault α} :
    Ends (withLock l j) w x w' ↔
      Ask.ready w.memory (.acquire l) = true ∧
        ∃ v, Ends j (w.after (.acquire l)) x v ∧ w' = v.after (.release l) := by
  have hbody : ∀ v, Ends (j.attempt.bind fun r => ask (.release l) fun _ => ofExcept r) v x w' ↔
      ∃ u, Ends j v x u ∧ w' = u.after (.release l) := by
    intro v
    simp only [ends_attempt_bind, ends_ask, ends_ofExcept]
    constructor
    · intro h
      obtain ⟨y, u, hj, -, rfl, rfl⟩ := h
      exact ⟨u, hj, rfl⟩
    · intro h
      obtain ⟨u, hj, rfl⟩ := h
      exact ⟨x, u, hj, rfl, rfl, rfl⟩
  rw [withLock_eq, ends_ask, hbody]

/-! ## Locks -/

section

variable {l : Lock} {w : World}

theorem ready_acquire_iff : Ask.ready w.memory (.acquire l) = true ↔ w.memory.held.count l = 0 := by
  simp [Ask.ready, List.count_eq_zero]

theorem held_acquire : (w.after (.acquire l)).memory.held.count l = w.memory.held.count l + 1 := List.count_cons_self ..

theorem held_release : (w.after (.release l)).memory.held.count l = w.memory.held.count l - 1 := List.count_erase_self ..

/-- Any other ask leaves the lock alone. -/
theorem held_after {q : Ask} (hacquire : q ≠ .acquire l) (hrelease : q ≠ .release l) :
    (w.after q).memory.held.count l = w.memory.held.count l := by
  cases q with
  | acquire l' =>
    have hne : l' ≠ l := by rintro rfl; exact hacquire rfl
    exact List.count_cons_of_ne hne
  | release l' =>
    have hne : l ≠ l' := by rintro rfl; exact hrelease rfl
    exact List.count_erase_of_ne hne
  | _ => rfl

end

/-! ## Footprints along steps -/

theorem Step.uses {α : Type} {j j' : Job α} {w w' : World} (s : Step j w j' w' ts) (hj : j.Uses P) :
    j'.Uses P ∧ (w' = w ∨ ∃ q, P q ∧ w' = w.after q) := by
  induction s with
  | ask _ => exact ⟨hj.2 _, Or.inr ⟨_, hj.1, rfl⟩⟩
  | left _ ih => exact ⟨⟨(ih hj.1).1, hj.2⟩, (ih hj.1).2⟩
  | right _ ih => exact ⟨⟨hj.1, (ih hj.2.1).1, hj.2.2⟩, (ih hj.2.1).2⟩
  | join _ _ => exact ⟨hj.2.2 _ _, Or.inl rfl⟩
  | pairLeft _ _ ih => exact ⟨⟨(ih hj.1).1, hj.2⟩, (ih hj.1).2⟩
  | pairRight _ _ ih => exact ⟨⟨hj.1, (ih hj.2.1).1, hj.2.2⟩, (ih hj.2.1).2⟩
  | meet => exact ⟨hj.2.2 _, Or.inl rfl⟩
  | quitLeft => exact ⟨hj.2.2 _, Or.inl rfl⟩
  | quitRight => exact ⟨hj.2.2 _, Or.inl rfl⟩

/-- In any order of its steps a job keeps what each of its asks keeps. -/
theorem Steps.keeps {I : World → Prop} (hI : ∀ q w, P q → I w → I (w.after q)) {α : Type} {j j' : Job α}
    {w w' : World} (h : Steps j w j' w') (hj : j.Uses P) (hw : I w) : j'.Uses P ∧ I w' := by
  induction h with
  | refl => exact ⟨hj, hw⟩
  | tail _ s ih =>
    obtain ⟨hu, hv⟩ := ih hw
    obtain ⟨hu', rfl | ⟨q, hq, rfl⟩⟩ := s.uses hu
    · exact ⟨hu', hv⟩
    · exact ⟨hu', hI q _ hq hv⟩

theorem Ends.keeps {I : World → Prop} (hI : ∀ q w, P q → I w → I (w.after q)) {α : Type} {j : Job α} {w w' : World}
    {x : Except Fault α} (hj : j.Uses P) (hw : I w) (h : Ends j w x w') : I w' := by
  obtain ⟨j', h, -⟩ := h
  exact (h.keeps hI hj hw).2

theorem Ends.outside {α : Type} {j : Job α} {w w' : World} {x : Except Fault α} (h : Ends j w x w') :
    w'.outside = w.outside :=
  h.keeps (I := fun v => v.outside = w.outside) (fun _ _ _ hv => hv) j.uses_any rfl

/-! ## The ending of a run -/

theorem Step.straight {α : Type} {j j' : Job α} {w w' : World} (s : Step j w j' w' ts) (hj : j.Straight P) :
    j'.Straight P ∧ j'.run w' = j.run w ∧ ts = [] := by
  cases s with
  | ask _ => exact ⟨hj.2 _, rfl, rfl⟩
  | _ => exact hj.elim

theorem run_of_outcome {α : Type} {j : Job α} {w : World} {x : Except Fault α} (h : j.outcome? = some x) :
    j.run w = (x, w) := by
  cases j with
  | done a => cases h; rfl
  | fail e => cases h; rfl
  | ask q k => simp [outcome?] at h
  | both l r k => simp [outcome?] at h
  | pair l r k => simp [outcome?] at h

theorem Steps.straight {α : Type} {j j' : Job α} {w w' : World} (h : Steps j w j' w') (hj : j.Straight P) :
    j'.Straight P ∧ j'.run w' = j.run w := by
  induction h with
  | refl => exact ⟨hj, rfl⟩
  | tail _ s ih =>
    obtain ⟨hs, hr⟩ := ih
    obtain ⟨hs', hr', -⟩ := s.straight hs
    exact ⟨hs', hr'.trans hr⟩

/-- A job without a fork has no ending but that of its run. -/
theorem Ends.run_eq {α : Type} {j : Job α} {w w' : World} {x : Except Fault α} (hj : j.Straight P) (h : Ends j w x w') :
    j.run w = (x, w') := by
  obtain ⟨j', h, hx⟩ := h
  rw [← (h.straight hj).2]
  exact run_of_outcome hx

theorem Steps.bothLeft {α β γ : Type} {l l' : Job β} {w w' : World} (h : Steps l w l' w') (r : Job γ)
    (k : Except Fault β → Except Fault γ → Job α) : Steps (both l r k) w (both l' r k) w' := by
  induction h with
  | refl => exact .refl
  | tail _ s ih => exact .tail ih (.left s)

theorem Steps.bothRight {α β γ : Type} {r r' : Job γ} {w w' : World} (h : Steps r w r' w') (l : Job β)
    (k : Except Fault β → Except Fault γ → Job α) : Steps (both l r k) w (both l r' k) w' := by
  induction h with
  | refl => exact .refl
  | tail _ s ih => exact .tail ih (.right s)

/-- The run of a job that waits for no lock, and for all it begins, is among its endings. -/
theorem ends_run {α : Type} {j : Job α} (hj : j.Whole fun q => ∀ m, q.ready m = true) (w : World) :
    Ends j w (j.run w).1 (j.run w).2 := by
  suffices ∀ w, ∃ j', Steps j w j' (j.run w).2 ∧ j'.outcome? = some (j.run w).1 from this w
  induction j with
  | done a => exact fun w => ⟨_, .refl, rfl⟩
  | fail e => exact fun w => ⟨_, .refl, rfl⟩
  | ask q k ih =>
    intro w
    obtain ⟨j', h, hx⟩ := ih (q.reply w) (hj.2 _) (w.after q)
    exact ⟨j', h.head (.ask (hj.1 _)), hx⟩
  | both l r k ihl ihr ih =>
    intro w
    obtain ⟨l', hl, hx⟩ := ihl hj.1 w
    obtain ⟨r', hr, hy⟩ := ihr hj.2.1 (l.run w).2
    obtain ⟨j', hk, hz⟩ := ih (l.run w).1 (r.run (l.run w).2).1 (hj.2.2 _ _) (r.run (l.run w).2).2
    refine ⟨j', ?_, hz⟩
    exact (hl.bothLeft r k).trans ((hr.bothRight l' k).trans (hk.head (.join hx hy)))
  | pair l r k => exact hj.elim

theorem Steps.pairLeft {α β γ : Type} {l l' : Job β} {w w' : World} (h : Steps l w l' w') {r : Job γ}
    (hr : r.failed = false) (k : Except Fault (β × γ) → Job α) : Steps (pair l r k) w (pair l' r k) w' := by
  induction h with
  | refl => exact .refl
  | tail _ s ih => exact .tail ih (.pairLeft hr s)

theorem Steps.pairRight {α β γ : Type} {r r' : Job γ} {w w' : World} (h : Steps r w r' w') {l : Job β}
    (hl : l.failed = false) (k : Except Fault (β × γ) → Job α) : Steps (pair l r k) w (pair l r' k) w' := by
  induction h with
  | refl => exact .refl
  | tail _ s ih => exact .tail ih (.pairRight hl s)

/-- A job that waits for no lock can come to an end. -/
theorem exists_ends {α : Type} {j : Job α} (hj : j.Uses fun q => ∀ m, q.ready m = true) (w : World) :
    ∃ x v, Ends j w x v := by
  induction j generalizing w with
  | done a => exact ⟨_, w, _, .refl, rfl⟩
  | fail e => exact ⟨_, w, _, .refl, rfl⟩
  | ask q k ih =>
    obtain ⟨x, v, h⟩ := ih (q.reply w) (hj.2 _) (w.after q)
    exact ⟨x, v, ends_ask.mpr ⟨hj.1 _, h⟩⟩
  | both l r k ihl ihr ih =>
    obtain ⟨x, u, l', hl, hx⟩ := ihl hj.1 w
    obtain ⟨y, u', r', hr, hy⟩ := ihr hj.2.1 u
    obtain ⟨z, v, j', hk, hz⟩ := ih x y (hj.2.2 _ _) u'
    exact ⟨z, v, j', (hl.bothLeft r k).trans ((hr.bothRight l' k).trans (hk.head (.join hx hy))), hz⟩
  | pair l r k ihl ihr ih =>
    have hover : ∀ {x j u ts}, Steps (pair l r k) w j u → Step j u (k x) u ts → ∃ x v, Ends (pair l r k) w x v := by
      intro x j u ts hsteps hs
      obtain ⟨z, v, j', hk, hz⟩ := ih x (hj.2.2 _) u
      exact ⟨z, v, j', hsteps.trans (hk.head hs), hz⟩
    cases hfailed : r.failed with
    | true =>
      obtain ⟨f, rfl⟩ := eq_fail_of_failed hfailed
      exact hover .refl .quitRight
    | false =>
      obtain ⟨x, u, l', hl, hx⟩ := ihl hj.1 w
      have hleft := hl.pairLeft hfailed k
      cases x with
      | error f =>
        rw [eq_fail_of_outcome hx] at hleft
        exact hover hleft .quitLeft
      | ok b =>
        rw [eq_done_of_outcome hx] at hleft
        obtain ⟨y, u', r', hr, hy⟩ := ihr hj.2.1 u
        have hboth := hleft.trans (hr.pairRight (l := done b) rfl k)
        cases y with
        | error f =>
          rw [eq_fail_of_outcome hy] at hboth
          exact hover hboth .quitRight
        | ok c =>
          rw [eq_done_of_outcome hy] at hboth
          exact hover hboth .meet

/-! ## Stopping on the way -/

/-- Some of the job's steps in some order lead to the world, where the job may be given up. -/
def Reaches {α : Type} (j : Job α) (w w' : World) : Prop := ∃ j', Steps j w j' w'

theorem Ends.reaches {α : Type} {j : Job α} {w w' : World} {x : Except Fault α} (h : Ends j w x w') :
    Reaches j w w' := by
  obtain ⟨j', h, -⟩ := h
  exact ⟨j', h⟩

theorem Reaches.keeps {I : World → Prop} (hI : ∀ q w, P q → I w → I (w.after q)) {α : Type} {j : Job α}
    {w w' : World} (hj : j.Uses P) (hw : I w) (h : Reaches j w w') : I w' := by
  obtain ⟨j', h⟩ := h
  exact (h.keeps hI hj hw).2

/-- What asks for nothing stays where it is. -/
theorem reaches_of_no_ask {α : Type} {j : Job α} {w w' : World} (hj : j.Uses fun _ => False) (h : Reaches j w w') :
    w' = w :=
  h.keeps (I := (· = w)) (fun _ _ hf => hf.elim) hj rfl

theorem reaches_done {α : Type} {a : α} {w w' : World} (h : Reaches (done a) w w') : w' = w :=
  reaches_of_no_ask (j := done a) trivial h

theorem reaches_ask {α : Type} {q : Ask} {k : q.Reply → Job α} {w w' : World} (h : Reaches (ask q k) w w') :
    w' = w ∨ Reaches (k (q.reply w)) (w.after q) w' := by
  obtain ⟨j', h⟩ := h
  rcases h.cases_head with ⟨_, hw⟩ | ⟨_, _, _, s, h⟩
  · exact Or.inl hw
  · cases s with
    | ask _ => exact Or.inr ⟨j', h⟩

theorem reaches_bind {α β : Type} {j : Job α} {f : α → Job β} {w w' : World} (h : Reaches (j.bind f) w w') :
    Reaches j w w' ∨ ∃ a v, Ends j w (.ok a) v ∧ Reaches (f a) v w' := by
  obtain ⟨z, h⟩ := h
  rcases steps_bind h with ⟨j', h', _⟩ | ⟨a, v, ha, h'⟩
  · exact Or.inl ⟨j', h'⟩
  · exact Or.inr ⟨a, v, ⟨_, ha, rfl⟩, z, h'⟩

theorem reaches_attempt {α : Type} {j : Job α} {w w' : World} (h : Reaches j.attempt w w') : Reaches j w w' := by
  obtain ⟨z, h⟩ := h
  obtain ⟨j', h', _⟩ := steps_attempt h
  exact ⟨j', h'⟩

/-- A job under a lock stops before it has the lock, or where it would stop without one, or
    when it has let go of it. -/
theorem reaches_withLock {α : Type} {l : Lock} {j : Job α} {w w' : World} (h : Reaches (withLock l j) w w') :
    w' = w ∨ ∃ v, Reaches j (w.after (.acquire l)) v ∧ (w' = v ∨ w' = v.after (.release l)) := by
  rw [withLock_eq] at h
  rcases reaches_ask h with hw | h
  · exact Or.inl hw
  · rcases reaches_bind h with h | ⟨r, v, he, h⟩
    · exact Or.inr ⟨w', reaches_attempt h, Or.inl rfl⟩
    · obtain ⟨y, _, hj⟩ := ends_attempt.mp he
      rcases reaches_ask h with rfl | h
      · exact Or.inr ⟨w', hj.reaches, Or.inl rfl⟩
      · exact Or.inr ⟨v, hj.reaches, Or.inr (reaches_of_no_ask (uses_ofExcept r) h)⟩

/-! ## Sides of a fork that do not meet -/

/-- Two worlds alike to the left side of a fork; what its asks need of that is that they
    are answered alike and leave worlds that are alike. -/
structure Apart (R : World → World → Prop) (P Q : Ask → Prop) : Prop where
  refl : ∀ w, R w w
  ready : ∀ q w v, P q → R w v → q.ready v.memory = true → q.ready w.memory = true
  reply : ∀ q w v, P q → R w v → q.reply w = q.reply v
  after : ∀ q w v, P q → R w v → R (w.after q) (v.after q)
  aside : ∀ q w v, Q q → R w v → R w (v.after q)

theorem Apart.mono {R : World → World → Prop} {Q' : Ask → Prop} (h : Apart R P Q) (hQ : ∀ q, Q' q → Q q) :
    Apart R P Q' :=
  ⟨h.refl, h.ready, h.reply, h.after, fun q w v hq => h.aside q w v (hQ q hq)⟩

/-- A step of the left side is a step of it alone, in a world that it cannot tell from this one. -/
theorem Step.alike {R : World → World → Prop} (hR : Apart R P Q) {α : Type} {j j' : Job α} {w w' v : World}
    (s : Step j w j' w' ts) (hj : j.Uses P) (hv : R v w) : ∃ v', Step j v j' v' ts ∧ R v' w' := by
  induction s generalizing v with
  | @ask _ q k w h =>
    have hask := Step.ask (k := k) (hR.ready q _ _ hj.1 hv h)
    rw [hR.reply q _ _ hj.1 hv] at hask
    exact ⟨_, hask, hR.after q _ _ hj.1 hv⟩
  | left _ ih =>
    obtain ⟨v', s, hv'⟩ := ih hj.1 hv
    exact ⟨v', .left s, hv'⟩
  | right _ ih =>
    obtain ⟨v', s, hv'⟩ := ih hj.2.1 hv
    exact ⟨v', .right s, hv'⟩
  | join hx hy => exact ⟨v, .join hx hy, hv⟩
  | pairLeft hr _ ih =>
    obtain ⟨v', s, hv'⟩ := ih hj.1 hv
    exact ⟨v', .pairLeft hr s, hv'⟩
  | pairRight hl _ ih =>
    obtain ⟨v', s, hv'⟩ := ih hj.2.1 hv
    exact ⟨v', .pairRight hl s, hv'⟩
  | meet => exact ⟨v, .meet, hv⟩
  | quitLeft => exact ⟨v, .quitLeft, hv⟩
  | quitRight => exact ⟨v, .quitRight, hv⟩

theorem Steps.alike {R : World → World → Prop} (hR : Apart R P Q) {α : Type} {j j' : Job α} {w w' v : World}
    (h : Steps j w j' w') (hj : j.Uses P) (hv : R v w) : ∃ v', Steps j v j' v' ∧ j'.Uses P ∧ R v' w' := by
  induction h with
  | refl => exact ⟨v, .refl, hj, hv⟩
  | tail _ s ih =>
    obtain ⟨u, h, hj', hu⟩ := ih hv
    obtain ⟨v', s', hv'⟩ := s.alike hR hj' hu
    exact ⟨v', .tail h s', (s.uses hj').1, hv'⟩

/-- So it ends as it could in that world. -/
theorem Ends.alike {R : World → World → Prop} (hR : Apart R P Q) {α : Type} {j : Job α} {x : Except Fault α}
    {w w' v : World} (h : Ends j w x w') (hj : j.Uses P) (hv : R v w) : ∃ v', Ends j v x v' := by
  obtain ⟨j', h, hx⟩ := h
  obtain ⟨v', h, -⟩ := h.alike hR hj hv
  exact ⟨v', j', h, hx⟩

/-- While the sides take turns, the left one stands where it could alone, in a world that it
    cannot tell from this one; past the join its outcome is that of an ending of its own. -/
theorem Steps.of_both {R : World → World → Prop} (hR : Apart R P Q) {α β γ : Type} {l : Job β} {r : Job γ}
    {k : Except Fault β → Except Fault γ → Job α} (hl : l.Uses P) (hr : r.Uses Q) {w w' : World}
    {z : Job α} (h : Steps (both l r k) w z w') :
    (∃ l' r' v, z = both l' r' k ∧ Steps l w l' v ∧ l'.Uses P ∧ r'.Uses Q ∧ R v w') ∨
      ∃ x y v u, Ends l w x v ∧ R v u ∧ Steps (k x y) u z w' := by
  generalize hb : both l r k = b at h
  induction h with
  | refl => exact Or.inl ⟨l, r, _, hb.symm, .refl, hl, hr, hR.refl _⟩
  | tail _ s ih =>
    rcases ih with ⟨l', r', v, rfl, hsteps, hl', hr', hv⟩ | ⟨x, y, v, u, hx, hu, h⟩
    · cases s with
      | left s =>
        obtain ⟨v', s', hv'⟩ := s.alike hR hl' hv
        exact Or.inl ⟨_, r', v', rfl, .tail hsteps s', (s.uses hl').1, hr', hv'⟩
      | right s =>
        obtain ⟨hr'', rfl | ⟨q, hq, rfl⟩⟩ := s.uses hr'
        · exact Or.inl ⟨l', _, v, rfl, hsteps, hl', hr'', hv⟩
        · exact Or.inl ⟨l', _, v, rfl, hsteps, hl', hr'', hR.aside q _ _ hq hv⟩
      | join hx hy => exact Or.inr ⟨_, _, v, _, ⟨l', hsteps, hx⟩, hv, .refl⟩
    · exact Or.inr ⟨x, y, v, u, hx, hu, .tail h s⟩

theorem Ends.of_both {R : World → World → Prop} (hR : Apart R P Q) {α β γ : Type} {l : Job β} {r : Job γ}
    {k : Except Fault β → Except Fault γ → Job α} (hl : l.Uses P) (hr : r.Uses Q) {w w' : World}
    {z : Except Fault α} (h : Ends (both l r k) w z w') :
    ∃ x y v u, Ends l w x v ∧ R v u ∧ Ends (k x y) u z w' := by
  obtain ⟨j, h, hz⟩ := h
  rcases h.of_both hR hl hr with ⟨l', r', v, rfl, -⟩ | ⟨x, y, v, u, hx, hu, h⟩
  · simp [outcome?] at hz
  · exact ⟨x, y, v, u, hx, hu, j, h, hz⟩

theorem Reaches.of_both {R : World → World → Prop} (hR : Apart R P Q) {α β γ : Type} {l : Job β} {r : Job γ}
    {k : Except Fault β → Except Fault γ → Job α} (hl : l.Uses P) (hr : r.Uses Q) {w w' : World}
    (h : Reaches (both l r k) w w') :
    (∃ v, Reaches l w v ∧ R v w') ∨ ∃ x y v u, Ends l w x v ∧ R v u ∧ Reaches (k x y) u w' := by
  obtain ⟨j, h⟩ := h
  rcases h.of_both hR hl hr with ⟨l', _, v, _, hsteps, _, _, hv⟩ | ⟨x, y, v, u, hx, hu, h⟩
  · exact Or.inl ⟨v, ⟨l', hsteps⟩, hv⟩
  · exact Or.inr ⟨x, y, v, u, hx, hu, j, h⟩

end NodeGauge.Job
