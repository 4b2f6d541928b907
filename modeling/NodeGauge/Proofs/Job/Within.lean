/-
  NodeGauge.Proofs.Job.Within — which asks a job makes where not every reply can be had. A
  job stays within `P` as long as each reply is one of those that `A` admits, and comes to an
  outcome in `Q` (`Within`); it is had by going through the job once. No step in a world that
  gives admitted replies leads out of it, and a world that answers every ask of `P` alike has
  the same step for the same side of its forks (`Within.step`).

  A step is told from all others by the sides it was taken on (`StepAt`); there is one for a
  place at most.
-/

import NodeGauge.Proofs.Job.Endings

namespace NodeGauge.Job

/-! ## Replies that can be had -/

/-- An outcome that is a value is one of these. -/
def Gives {α : Type} (R : α → Prop) (x : Except Fault α) : Prop := ∀ a, x = .ok a → R a

theorem gives_ok {α : Type} {R : α → Prop} {a : α} (h : R a) : Gives R (.ok a) := by
  rintro _ ⟨⟩
  exact h

theorem gives_error {α : Type} {R : α → Prop} {e : Fault} : Gives R (.error e) := by
  rintro _ ⟨⟩

/-- While the replies are admitted, the job asks for nothing but what is in `P`, and its
    outcome is in `Q`. -/
def Within (A : (q : Ask) → q.Reply → Prop) (P : Ask → Prop) {α : Type} :
    Job α → (Except Fault α → Prop) → Prop
  | done a, Q => Q (.ok a)
  | fail f, Q => Q (.error f)
  | ask q k, Q => P q ∧ ∀ r, A q r → (k r).Within A P Q
  | both left right k, Q => ∃ L R, left.Within A P L ∧ right.Within A P R ∧
      ∀ x y, L x → R y → (k x y).Within A P Q
  | pair left right k, Q => ∃ L R, left.Within A P L ∧ right.Within A P R ∧
      (∀ b c, L (.ok b) → R (.ok c) → (k (.ok (b, c))).Within A P Q) ∧
      ∀ f, L (.error f) ∨ R (.error f) → (k (.error f)).Within A P Q

variable {A : (q : Ask) → q.Reply → Prop} {P : Ask → Prop} {α β : Type} {Q Q' : Except Fault α → Prop} {j : Job α}

theorem Within.mono (hQ : ∀ x, Q x → Q' x) (h : j.Within A P Q) : j.Within A P Q' := by
  induction j with
  | done a => exact hQ _ h
  | fail f => exact hQ _ h
  | ask q k ih => exact ⟨h.1, fun r hr => ih r hQ (h.2 r hr)⟩
  | both left right k _ _ ih =>
    obtain ⟨L, R, hleft, hright, hk⟩ := h
    exact ⟨L, R, hleft, hright, fun x y hx hy => ih x y hQ (hk x y hx hy)⟩
  | pair left right k _ _ ih =>
    obtain ⟨L, R, hleft, hright, hvalues, hfault⟩ := h
    exact ⟨L, R, hleft, hright, fun b c hb hc => ih _ hQ (hvalues b c hb hc), fun f hf => ih _ hQ (hfault f hf)⟩

/-- What is within `P` whatever the replies are. -/
theorem within_of_uses (h : j.Uses P) : j.Within A P fun _ => True := by
  induction j with
  | done a => trivial
  | fail f => trivial
  | ask q k ih => exact ⟨h.1, fun r _ => ih r (h.2 r)⟩
  | both left right k ihl ihr ih => exact ⟨_, _, ihl h.1, ihr h.2.1, fun x y _ _ => ih x y (h.2.2 x y)⟩
  | pair left right k ihl ihr ih =>
    exact ⟨_, _, ihl h.1, ihr h.2.1, fun b c _ _ => ih _ (h.2.2 _), fun f _ => ih _ (h.2.2 _)⟩

/-- What follows is within `P` for every value that the first part can come to. -/
theorem within_bind {R : α → Prop} {f : α → Job β} {Q : Except Fault β → Prop}
    (h : j.Within A P (Gives R)) (hf : ∀ a, R a → (f a).Within A P Q)
    (herror : ∀ e, Q (.error e)) : (j.bind f).Within A P Q := by
  induction j with
  | done a => exact hf a (h a rfl)
  | fail e => exact herror e
  | ask q k ih => exact ⟨h.1, fun r hr => ih r (h.2 r hr) hf⟩
  | both left right k _ _ ih =>
    obtain ⟨L, R, hleft, hright, hk⟩ := h
    exact ⟨L, R, hleft, hright, fun x y hx hy => ih x y (hk x y hx hy) hf⟩
  | pair left right k _ _ ih =>
    obtain ⟨L, R, hleft, hright, hvalues, hfault⟩ := h
    exact ⟨L, R, hleft, hright, fun b c hb hc => ih _ (hvalues b c hb hc) hf, fun f hlr => ih _ (hfault f hlr) hf⟩

/-- The same where it does not matter what either part comes to. -/
theorem within_seq {f : α → Job β} (h : j.Within A P fun _ => True) (hf : ∀ a, (f a).Within A P fun _ => True) :
    (j.bind f).Within A P fun _ => True :=
  within_bind (R := fun _ => True) (h.mono fun _ _ _ _ => trivial) (fun a _ => hf a) fun _ => trivial

theorem within_attempt (h : j.Within A P fun _ => True) : j.attempt.Within A P fun _ => True := by
  induction j with
  | done a => trivial
  | fail e => trivial
  | ask q k ih => exact ⟨h.1, fun r hr => ih r (h.2 r hr)⟩
  | both left right k _ _ ih =>
    obtain ⟨L, R, hleft, hright, hk⟩ := h
    exact ⟨L, R, hleft, hright, fun x y hx hy => ih x y (hk x y hx hy)⟩
  | pair left right k _ _ ih =>
    obtain ⟨L, R, hleft, hright, hvalues, hfault⟩ := h
    exact ⟨L, R, hleft, hright, fun b c hb hc => ih _ (hvalues b c hb hc), fun f hf => ih _ (hfault f hf)⟩

/-! ## Steps by the place they are taken at -/

inductive Side where
  | left
  | right
  deriving DecidableEq, Repr

/-- A step, with the sides of the forks and pairs that it is inside of, the outermost first.
    A pair is given up on the side that has failed. -/
inductive StepAt : List Side → {α : Type} → Job α → World → Job α → World → Prop where
  | ask {α : Type} {q : Ask} {k : q.Reply → Job α} {w : World} (h : q.ready w.memory = true) :
    StepAt [] (.ask q k) w (k (q.reply w)) (w.after q)
  | left {sides : List Side} {α β γ : Type} {l l' : Job β} {r : Job γ} {k : Except Fault β → Except Fault γ → Job α}
    {w w' : World} (h : StepAt sides l w l' w') : StepAt (.left :: sides) (.both l r k) w (.both l' r k) w'
  | right {sides : List Side} {α β γ : Type} {l : Job β} {r r' : Job γ} {k : Except Fault β → Except Fault γ → Job α}
    {w w' : World} (h : StepAt sides r w r' w') : StepAt (.right :: sides) (.both l r k) w (.both l r' k) w'
  | join {α β γ : Type} {l : Job β} {r : Job γ} {k : Except Fault β → Except Fault γ → Job α} {w : World}
    {x : Except Fault β} {y : Except Fault γ} (hl : l.outcome? = some x) (hr : r.outcome? = some y) :
    StepAt [] (.both l r k) w (k x y) w
  | pairLeft {sides : List Side} {α β γ : Type} {l l' : Job β} {r : Job γ} {k : Except Fault (β × γ) → Job α}
    {w w' : World} (hr : r.failed = false) (h : StepAt sides l w l' w') :
    StepAt (.left :: sides) (.pair l r k) w (.pair l' r k) w'
  | pairRight {sides : List Side} {α β γ : Type} {l : Job β} {r r' : Job γ} {k : Except Fault (β × γ) → Job α}
    {w w' : World} (hl : l.failed = false) (h : StepAt sides r w r' w') :
    StepAt (.right :: sides) (.pair l r k) w (.pair l r' k) w'
  | meet {α β γ : Type} {b : β} {c : γ} {k : Except Fault (β × γ) → Job α} {w : World} :
    StepAt [] (.pair (.done b) (.done c) k) w (k (.ok (b, c))) w
  | quitLeft {α β γ : Type} {f : Fault} {r : Job γ} {k : Except Fault (β × γ) → Job α} {w : World} :
    StepAt [.left] (.pair (.fail f) r k) w (k (.error f)) w
  | quitRight {α β γ : Type} {l : Job β} {f : Fault} {k : Except Fault (β × γ) → Job α} {w : World} :
    StepAt [.right] (.pair l (.fail f) k) w (k (.error f)) w

variable {sides : List Side} {j' j'' : Job α} {w v u : World}

theorem step_iff_stepAt : (∃ ts, Step j w j' v ts) ↔ ∃ sides, StepAt sides j w j' v := by
  constructor
  · rintro ⟨ts, s⟩
    induction s with
    | ask h => exact ⟨_, .ask h⟩
    | left _ ih =>
      obtain ⟨sides, h⟩ := ih
      exact ⟨_, .left h⟩
    | right _ ih =>
      obtain ⟨sides, h⟩ := ih
      exact ⟨_, .right h⟩
    | join hl hr => exact ⟨_, .join hl hr⟩
    | pairLeft hr _ ih =>
      obtain ⟨sides, h⟩ := ih
      exact ⟨_, .pairLeft hr h⟩
    | pairRight hl _ ih =>
      obtain ⟨sides, h⟩ := ih
      exact ⟨_, .pairRight hl h⟩
    | meet => exact ⟨_, .meet⟩
    | quitLeft => exact ⟨_, .quitLeft⟩
    | quitRight => exact ⟨_, .quitRight⟩
  · rintro ⟨sides, s⟩
    induction s with
    | ask h => exact ⟨_, .ask h⟩
    | left _ ih =>
      obtain ⟨ts, h⟩ := ih
      exact ⟨_, .left h⟩
    | right _ ih =>
      obtain ⟨ts, h⟩ := ih
      exact ⟨_, .right h⟩
    | join hl hr => exact ⟨_, .join hl hr⟩
    | pairLeft hr _ ih =>
      obtain ⟨ts, h⟩ := ih
      exact ⟨_, .pairLeft hr h⟩
    | pairRight hl _ ih =>
      obtain ⟨ts, h⟩ := ih
      exact ⟨_, .pairRight hl h⟩
    | meet => exact ⟨_, .meet⟩
    | quitLeft => exact ⟨_, .quitLeft⟩
    | quitRight => exact ⟨_, .quitRight⟩

/-- What has ended has no step at any place. -/
theorem not_stepAt_of_outcome {x : Except Fault α} (h : j.outcome? = some x) : ¬ StepAt sides j w j' v := fun s =>
  let ⟨_, s'⟩ := step_iff_stepAt.mpr ⟨sides, s⟩
  not_step_of_outcome h s'

theorem StepAt.unique (s : StepAt sides j w j' v) (s' : StepAt sides j w j'' u) : j'' = j' ∧ u = v := by
  induction s with
  | ask _ =>
    cases s'
    exact ⟨rfl, rfl⟩
  | left _ ih =>
    cases s' with
    | left s' =>
      obtain ⟨rfl, rfl⟩ := ih s'
      exact ⟨rfl, rfl⟩
  | right _ ih =>
    cases s' with
    | right s' =>
      obtain ⟨rfl, rfl⟩ := ih s'
      exact ⟨rfl, rfl⟩
  | join hl hr =>
    cases s' with
    | join hl' hr' =>
      obtain rfl := Option.some.inj (hl'.symm.trans hl)
      obtain rfl := Option.some.inj (hr'.symm.trans hr)
      exact ⟨rfl, rfl⟩
  | pairLeft _ s ih =>
    cases s' with
    | pairLeft _ s' =>
      obtain ⟨rfl, rfl⟩ := ih s'
      exact ⟨rfl, rfl⟩
    | quitLeft => exact absurd s (not_stepAt_of_outcome rfl)
  | pairRight _ s ih =>
    cases s' with
    | pairRight _ s' =>
      obtain ⟨rfl, rfl⟩ := ih s'
      exact ⟨rfl, rfl⟩
    | quitRight => exact absurd s (not_stepAt_of_outcome rfl)
  | meet =>
    cases s'
    exact ⟨rfl, rfl⟩
  | quitLeft =>
    cases s' with
    | pairLeft _ s' => exact absurd s' (not_stepAt_of_outcome rfl)
    | quitLeft => exact ⟨rfl, rfl⟩
  | quitRight =>
    cases s' with
    | pairRight _ s' => exact absurd s' (not_stepAt_of_outcome rfl)
    | quitRight => exact ⟨rfl, rfl⟩

/-! ## One step in two worlds -/

/-- Worlds that answer alike whatever is in `P`, and stay related after it. -/
structure AlikeFor (P : Ask → Prop) (R : World → World → Prop) : Prop where
  ready : ∀ q w w', P q → R w w' → q.ready w'.memory = q.ready w.memory
  reply : ∀ q w w', P q → R w w' → q.reply w' = q.reply w
  after : ∀ q w w', P q → R w w' → R (w.after q) (w'.after q)

/-- In a world with admitted replies a step leads to a job that is within `P` still, and a
    world that answers alike has the step at the same place. -/
theorem Within.step {R : World → World → Prop} (hR : AlikeFor P R) {w' : World} (h : j.Within A P Q)
    (hA : ∀ q, A q (q.reply w)) (hw : R w w') (s : StepAt sides j w j' v) :
    j'.Within A P Q ∧ ∃ v', StepAt sides j w' j' v' ∧ R v v' ∧ (v = w ∨ ∃ q, v = w.after q) := by
  induction s with
  | @ask α q k w hq =>
    have s : StepAt [] (.ask q k) w' (k (q.reply w')) (w'.after q) := .ask ((hR.ready q w w' h.1 hw).trans hq)
    rw [hR.reply q w w' h.1 hw] at s
    exact ⟨h.2 _ (hA q), w'.after q, s, hR.after q w w' h.1 hw, Or.inr ⟨q, rfl⟩⟩
  | left _ ih =>
    obtain ⟨L, R, hleft, hright, hk⟩ := h
    obtain ⟨hl, v', s', hv⟩ := ih hleft hA hw
    exact ⟨⟨L, R, hl, hright, hk⟩, v', .left s', hv⟩
  | right _ ih =>
    obtain ⟨L, R, hleft, hright, hk⟩ := h
    obtain ⟨hr, v', s', hv⟩ := ih hright hA hw
    exact ⟨⟨L, R, hleft, hr, hk⟩, v', .right s', hv⟩
  | @join α β γ l r k w x y hl hr =>
    obtain ⟨L, R, hleft, hright, hk⟩ := h
    have hx : L x := by
      cases l <;> cases hl <;> exact hleft
    have hy : R y := by
      cases r <;> cases hr <;> exact hright
    exact ⟨hk x y hx hy, w', .join hl hr, hw, Or.inl rfl⟩
  | pairLeft hr _ ih =>
    obtain ⟨L, R, hleft, hright, hk⟩ := h
    obtain ⟨hl, v', s', hv⟩ := ih hleft hA hw
    exact ⟨⟨L, R, hl, hright, hk⟩, v', .pairLeft hr s', hv⟩
  | pairRight hl _ ih =>
    obtain ⟨L, R, hleft, hright, hk⟩ := h
    obtain ⟨hr, v', s', hv⟩ := ih hright hA hw
    exact ⟨⟨L, R, hleft, hr, hk⟩, v', .pairRight hl s', hv⟩
  | meet =>
    obtain ⟨L, R, hleft, hright, hvalues, -⟩ := h
    exact ⟨hvalues _ _ hleft hright, w', .meet, hw, Or.inl rfl⟩
  | quitLeft =>
    obtain ⟨L, R, hleft, -, -, hfault⟩ := h
    exact ⟨hfault _ (Or.inl hleft), w', .quitLeft, hw, Or.inl rfl⟩
  | quitRight =>
    obtain ⟨L, R, -, hright, -, hfault⟩ := h
    exact ⟨hfault _ (Or.inr hright), w', .quitRight, hw, Or.inl rfl⟩

end NodeGauge.Job
