/-
  NodeGauge.Proofs.Job.Footprint — which asks a job makes (`Uses`), and what that says of
  its run. A property of worlds that every such ask keeps is kept by the whole run
  (`run_keeps`). Two worlds that answer every such ask alike, and are alike after it, give
  the job one outcome (`run_congr`). So a job that only reads can be understood in the
  world it begins in, whatever was asked before it. A job is `Whole` if it waits for all it
  begins, and `Straight` if it has not two sides anywhere; `Leaves` is about what a job does
  not wait for.
-/

import NodeGauge.Job

namespace NodeGauge.Job

/-! ## Monad laws -/

theorem bind_assoc {α β γ : Type} (j : Job α) (f : α → Job β) (g : β → Job γ) :
    (j.bind f).bind g = j.bind fun a => (f a).bind g := by
  induction j with
  | done a => rfl
  | fail e => rfl
  | ask q k ih => exact congrArg (ask q) (funext fun r => ih r f)
  | both l r k _ _ ih => exact congrArg (both l r) (funext fun x => funext fun y => ih x y f)
  | pair l r k _ _ ih => exact congrArg (pair l r) (funext fun x => ih x f)

theorem bind_done {α : Type} (j : Job α) : j.bind done = j := by
  induction j with
  | done a => rfl
  | fail e => rfl
  | ask q k ih => exact congrArg (ask q) (funext fun r => ih r)
  | both l r k _ _ ih => exact congrArg (both l r) (funext fun x => funext fun y => ih x y)
  | pair l r k _ _ ih => exact congrArg (pair l r) (funext fun x => ih x)

instance : LawfulMonad Job := LawfulMonad.mk' Job bind_done (fun _ _ => rfl) bind_assoc

theorem attempt_bind {α β : Type} (j : Job α) (f : α → Job β) :
    (j.bind f).attempt = j.attempt.bind fun r => match r with
      | .ok a => (f a).attempt
      | .error e => done (.error e) := by
  induction j with
  | done a => rfl
  | fail e => rfl
  | ask q k ih => exact congrArg (ask q) (funext fun r => ih r f)
  | both l r k _ _ ih => exact congrArg (both l r) (funext fun x => funext fun y => ih x y f)
  | pair l r k _ _ ih => exact congrArg (pair l r) (funext fun x => ih x f)

/-! ## Footprints -/

/-- Every ask of the job, whatever the replies, is one of `P`. -/
def Uses (P : Ask → Prop) {α : Type} : Job α → Prop
  | done _ => True
  | fail _ => True
  | ask q k => P q ∧ ∀ r, (k r).Uses P
  | both l r k => l.Uses P ∧ r.Uses P ∧ ∀ x y, (k x y).Uses P
  | pair l r k => l.Uses P ∧ r.Uses P ∧ ∀ x, (k x).Uses P

variable {P Q : Ask → Prop}

theorem Uses.mono (hPQ : ∀ q, P q → Q q) {α : Type} {j : Job α} (h : j.Uses P) : j.Uses Q := by
  induction j with
  | done a => trivial
  | fail e => trivial
  | ask q k ih => exact ⟨hPQ q h.1, fun r => ih r (h.2 r)⟩
  | both l r k ihl ihr ih => exact ⟨ihl h.1, ihr h.2.1, fun x y => ih x y (h.2.2 x y)⟩
  | pair l r k ihl ihr ih => exact ⟨ihl h.1, ihr h.2.1, fun x => ih x (h.2.2 x)⟩

theorem uses_bind {α β : Type} {j : Job α} {f : α → Job β} (hj : j.Uses P) (hf : ∀ a, (f a).Uses P) :
    (j.bind f).Uses P := by
  induction j with
  | done a => exact hf a
  | fail e => trivial
  | ask q k ih => exact ⟨hj.1, fun r => ih r (hj.2 r) hf⟩
  | both l r k _ _ ih => exact ⟨hj.1, hj.2.1, fun x y => ih x y (hj.2.2 x y) hf⟩
  | pair l r k _ _ ih => exact ⟨hj.1, hj.2.1, fun x => ih x (hj.2.2 x) hf⟩

theorem uses_attempt {α : Type} {j : Job α} (hj : j.Uses P) : j.attempt.Uses P := by
  induction j with
  | done a => trivial
  | fail e => trivial
  | ask q k ih => exact ⟨hj.1, fun r => ih r (hj.2 r)⟩
  | both l r k _ _ ih => exact ⟨hj.1, hj.2.1, fun x y => ih x y (hj.2.2 x y)⟩
  | pair l r k _ _ ih => exact ⟨hj.1, hj.2.1, fun x => ih x (hj.2.2 x)⟩

theorem uses_ofExcept {α : Type} (r : Except Fault α) : (ofExcept r).Uses P := by
  cases r <;> trivial

theorem uses_send {q : Ask} (h : P q) : (send q).Uses P := ⟨h, fun _ => trivial⟩

theorem uses_all {α : Type} {js : List (Job α)} (h : ∀ j ∈ js, j.Uses P) : (all js).Uses P := by
  induction js with
  | nil => trivial
  | cons j js ih =>
    refine ⟨h j (List.mem_cons_self ..), ih fun i hi => h i (List.mem_cons_of_mem j hi), fun x xs => ?_⟩
    cases xs <;> trivial

/-! ## Jobs that wait for all they begin -/

/-- The job has no pair, and every ask of it is one of `P`. -/
def Whole (P : Ask → Prop) {α : Type} : Job α → Prop
  | done _ => True
  | fail _ => True
  | ask q k => P q ∧ ∀ r, (k r).Whole P
  | both l r k => l.Whole P ∧ r.Whole P ∧ ∀ x y, (k x y).Whole P
  | pair .. => False

theorem Whole.uses {α : Type} {j : Job α} (h : j.Whole P) : j.Uses P := by
  induction j with
  | done a => trivial
  | fail e => trivial
  | ask q k ih => exact ⟨h.1, fun r => ih r (h.2 r)⟩
  | both l r k ihl ihr ih => exact ⟨ihl h.1, ihr h.2.1, fun x y => ih x y (h.2.2 x y)⟩
  | pair l r k => exact h.elim

theorem Whole.mono (hPQ : ∀ q, P q → Q q) {α : Type} {j : Job α} (h : j.Whole P) : j.Whole Q := by
  induction j with
  | done a => trivial
  | fail e => trivial
  | ask q k ih => exact ⟨hPQ q h.1, fun r => ih r (h.2 r)⟩
  | both l r k ihl ihr ih => exact ⟨ihl h.1, ihr h.2.1, fun x y => ih x y (h.2.2 x y)⟩
  | pair l r k => exact h.elim

theorem whole_bind {α β : Type} {j : Job α} {f : α → Job β} (hj : j.Whole P) (hf : ∀ a, (f a).Whole P) :
    (j.bind f).Whole P := by
  induction j with
  | done a => exact hf a
  | fail e => trivial
  | ask q k ih => exact ⟨hj.1, fun r => ih r (hj.2 r) hf⟩
  | both l r k _ _ ih => exact ⟨hj.1, hj.2.1, fun x y => ih x y (hj.2.2 x y) hf⟩
  | pair l r k => exact hj.elim

theorem whole_attempt {α : Type} {j : Job α} (hj : j.Whole P) : j.attempt.Whole P := by
  induction j with
  | done a => trivial
  | fail e => trivial
  | ask q k ih => exact ⟨hj.1, fun r => ih r (hj.2 r)⟩
  | both l r k _ _ ih => exact ⟨hj.1, hj.2.1, fun x y => ih x y (hj.2.2 x y)⟩
  | pair l r k => exact hj.elim

theorem whole_send {q : Ask} (h : P q) : (send q).Whole P := ⟨h, fun _ => trivial⟩

theorem whole_ofExcept {α : Type} (r : Except Fault α) : (ofExcept r).Whole P := by
  cases r <;> trivial

theorem whole_all {α : Type} {js : List (Job α)} (h : ∀ j ∈ js, j.Whole P) : (all js).Whole P := by
  induction js with
  | nil => trivial
  | cons j js ih =>
    refine ⟨h j (List.mem_cons_self ..), ih fun i hi => h i (List.mem_cons_of_mem j hi), fun x xs => ?_⟩
    cases xs <;> trivial

/-! ## Jobs that leave something running -/

/-- Whatever the job may leave running waits for all it begins and asks for `P` only. -/
def Leaves (P : Ask → Prop) {α : Type} : Job α → Prop
  | done _ => True
  | fail _ => True
  | ask _ k => ∀ r, (k r).Leaves P
  | both l r k => l.Leaves P ∧ r.Leaves P ∧ ∀ x y, (k x y).Leaves P
  | pair l r k => l.Whole P ∧ r.Whole P ∧ ∀ x, (k x).Leaves P

theorem Whole.leaves {α : Type} {j : Job α} (h : j.Whole Q) : j.Leaves P := by
  induction j with
  | done a => trivial
  | fail e => trivial
  | ask q k ih => exact fun r => ih r (h.2 r)
  | both l r k ihl ihr ih => exact ⟨ihl h.1, ihr h.2.1, fun x y => ih x y (h.2.2 x y)⟩
  | pair l r k => exact h.elim

theorem leaves_bind {α β : Type} {j : Job α} {f : α → Job β} (hj : j.Leaves P) (hf : ∀ a, (f a).Leaves P) :
    (j.bind f).Leaves P := by
  induction j with
  | done a => exact hf a
  | fail e => trivial
  | ask q k ih => exact fun r => ih r (hj r) hf
  | both l r k _ _ ih => exact ⟨hj.1, hj.2.1, fun x y => ih x y (hj.2.2 x y) hf⟩
  | pair l r k _ _ ih => exact ⟨hj.1, hj.2.1, fun x => ih x (hj.2.2 x) hf⟩

theorem leaves_attempt {α : Type} {j : Job α} (hj : j.Leaves P) : j.attempt.Leaves P := by
  induction j with
  | done a => trivial
  | fail e => trivial
  | ask q k ih => exact fun r => ih r (hj r)
  | both l r k _ _ ih => exact ⟨hj.1, hj.2.1, fun x y => ih x y (hj.2.2 x y)⟩
  | pair l r k _ _ ih => exact ⟨hj.1, hj.2.1, fun x => ih x (hj.2.2 x)⟩

theorem leaves_withLock {α : Type} {j : Job α} (l : Lock) (hj : j.Leaves P) : (withLock l j).Leaves P := by
  show (ask (.acquire l) fun _ => j.attempt.bind fun r => ask (.release l) fun _ => ofExcept r).Leaves P
  intro _
  refine leaves_bind (leaves_attempt hj) fun r _ => ?_
  cases r <;> trivial

/-! ## Jobs without a fork -/

/-- The job has neither fork nor pair, and every ask of it is one of `P`. -/
def Straight (P : Ask → Prop) {α : Type} : Job α → Prop
  | done _ => True
  | fail _ => True
  | ask q k => P q ∧ ∀ r, (k r).Straight P
  | both .. => False
  | pair .. => False

theorem Straight.whole {α : Type} {j : Job α} (h : j.Straight P) : j.Whole P := by
  induction j with
  | done a => trivial
  | fail e => trivial
  | ask q k ih => exact ⟨h.1, fun r => ih r (h.2 r)⟩
  | both l r k => exact h.elim
  | pair l r k => exact h.elim

theorem Straight.uses {α : Type} {j : Job α} (h : j.Straight P) : j.Uses P := h.whole.uses

theorem Straight.mono (hPQ : ∀ q, P q → Q q) {α : Type} {j : Job α} (h : j.Straight P) : j.Straight Q := by
  induction j with
  | done a => trivial
  | fail e => trivial
  | ask q k ih => exact ⟨hPQ q h.1, fun r => ih r (h.2 r)⟩
  | both l r k => exact h.elim
  | pair l r k => exact h.elim

theorem straight_bind {α β : Type} {j : Job α} {f : α → Job β} (hj : j.Straight P) (hf : ∀ a, (f a).Straight P) :
    (j.bind f).Straight P := by
  induction j with
  | done a => exact hf a
  | fail e => trivial
  | ask q k ih => exact ⟨hj.1, fun r => ih r (hj.2 r) hf⟩
  | both l r k => exact hj.elim
  | pair l r k => exact hj.elim

theorem straight_ofExcept {α : Type} (r : Except Fault α) : (ofExcept r).Straight P := by
  cases r <;> trivial

theorem straight_send {q : Ask} (h : P q) : (send q).Straight P := ⟨h, fun _ => trivial⟩

/-! ## Runs -/

/-- What the job comes to when it runs alone in a world. -/
def answer {α : Type} (j : Job α) (w : World) : Except Fault α := (j.run w).1

theorem run_send_bind {α : Type} (q : Ask) (f : q.Reply → Job α) (w : World) :
    (send q >>= f).run w = (f (q.reply w)).run (w.after q) := rfl

theorem run_keeps {I : World → Prop} (hI : ∀ q w, P q → I w → I (w.after q)) {α : Type} {j : Job α}
    (hj : j.Uses P) {w : World} (hw : I w) : I (j.run w).2 := by
  induction j generalizing w with
  | done a => exact hw
  | fail e => exact hw
  | ask q k ih => exact ih _ (hj.2 _) (hI q w hj.1 hw)
  | both l r k ihl ihr ih => exact ih _ _ (hj.2.2 _ _) (ihr hj.2.1 (ihl hj.1 hw))
  | pair l r k ihl ihr ih => exact ih _ (hj.2.2 _) (ihr hj.2.1 (ihl hj.1 hw))

theorem uses_any {α : Type} (j : Job α) : j.Uses fun _ => True := by
  induction j with
  | done a => trivial
  | fail e => trivial
  | ask q k ih => exact ⟨trivial, ih⟩
  | both l r k ihl ihr ih => exact ⟨ihl, ihr, ih⟩
  | pair l r k ihl ihr ih => exact ⟨ihl, ihr, ih⟩

/-- No job changes the outside. -/
theorem run_outside {α : Type} (j : Job α) (w : World) : (j.run w).2.outside = w.outside :=
  run_keeps (I := fun v => v.outside = w.outside) (fun _ _ _ h => h) j.uses_any rfl

theorem run_congr {R : World → World → Prop}
    (hR : ∀ q w v, P q → R w v → q.reply w = q.reply v ∧ R (w.after q) (v.after q)) {α : Type} {j : Job α}
    (hj : j.Uses P) {w v : World} (h : R w v) : j.answer w = j.answer v ∧ R (j.run w).2 (j.run v).2 := by
  induction j generalizing w v with
  | done a => exact ⟨rfl, h⟩
  | fail e => exact ⟨rfl, h⟩
  | ask q k ih =>
    obtain ⟨hr, ha⟩ := hR q w v hj.1 h
    show ((k (q.reply w)).run (w.after q)).1 = ((k (q.reply v)).run (v.after q)).1 ∧
      R ((k (q.reply w)).run (w.after q)).2 ((k (q.reply v)).run (v.after q)).2
    rw [← hr]
    exact ih _ (hj.2 _) ha
  | both l r k ihl ihr ih =>
    obtain ⟨hl, h1⟩ := ihl hj.1 h
    obtain ⟨hr, h2⟩ := ihr hj.2.1 h1
    rw [answer, answer] at hl hr
    simp only [answer, run]
    rw [← hl, ← hr]
    exact ih _ _ (hj.2.2 _ _) h2
  | pair l r k ihl ihr ih =>
    obtain ⟨hl, h1⟩ := ihl hj.1 h
    obtain ⟨hr, h2⟩ := ihr hj.2.1 h1
    rw [answer, answer] at hl hr
    simp only [answer, run]
    rw [← hl, ← hr]
    exact ih _ (hj.2.2 _) h2

end NodeGauge.Job
