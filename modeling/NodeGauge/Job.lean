/-
  NodeGauge.Job — a job as the tree of its asks: it is done, has failed, asks and goes on
  by the reply, or has two jobs run side by side. What a job does next is plain data, so
  one definition serves two readings: `run` takes it to its end alone, and `Job.Step` (in
  `NodeGauge.Job.Schedule`) lets the sides of a fork take turns.

  What follows a fork waits for both sides, also when one fails, and sees the two outcomes.
  What follows a pair waits for both values or for the first fault; then the side that is
  not at its end is no longer waited for, but it runs on.
-/

import NodeGauge.World

namespace NodeGauge

inductive Job : Type → Type 1 where
  | done {α : Type} (a : α) : Job α
  | fail {α : Type} (f : Fault) : Job α
  | ask {α : Type} (q : Ask) (k : q.Reply → Job α) : Job α
  | both {α β γ : Type} (left : Job β) (right : Job γ) (k : Except Fault β → Except Fault γ → Job α) : Job α
  | pair {α β γ : Type} (left : Job β) (right : Job γ) (k : Except Fault (β × γ) → Job α) : Job α

namespace Job

def bind {α β : Type} : Job α → (α → Job β) → Job β
  | done a, f => f a
  | fail e, _ => fail e
  | ask q k, f => ask q fun r => (k r).bind f
  | both l r k, f => both l r fun x y => (k x y).bind f
  | pair l r k, f => pair l r fun x => (k x).bind f

instance : Monad Job where
  pure := done
  bind := bind

def ofExcept {α : Type} : Except Fault α → Job α
  | .ok a => done a
  | .error f => fail f

instance : MonadLift (Except Fault) Job := ⟨ofExcept⟩

def send (q : Ask) : Job q.Reply := ask q done

def note (n : Note) : Job Unit := send (.note n)

/-- The outcome of a job as a value: what follows goes on after a failure too. -/
def attempt {α : Type} : Job α → Job (Except Fault α)
  | done a => done (.ok a)
  | fail f => done (.error f)
  | ask q k => ask q fun r => (k r).attempt
  | both l r k => both l r fun x y => (k x y).attempt
  | pair l r k => pair l r fun x => (k x).attempt

/-- Two jobs side by side, and their outcomes. -/
def fork {α β : Type} (left : Job α) (right : Job β) : Job (Except Fault α × Except Fault β) :=
  both left right fun x y => done (x, y)

/-- Two jobs side by side, and their values or the first fault of one. -/
def together {α β : Type} (left : Job α) (right : Job β) : Job (α × β) := pair left right ofExcept

def all {α : Type} : List (Job α) → Job (List (Except Fault α))
  | [] => done []
  | j :: js => both j (all js) fun x xs => match xs with
    | .ok xs => done (x :: xs)
    | .error f => fail f

/-- Holds the lock while the job runs, and lets go of it however the job ends. -/
def withLock {α : Type} (l : Lock) (j : Job α) : Job α := do
  send (.acquire l)
  let r ← j.attempt
  send (.release l)
  ofExcept r

def joint {α β : Type} : Except Fault α → Except Fault β → Except Fault (α × β)
  | .ok a, .ok b => .ok (a, b)
  | .error f, _ | .ok _, .error f => .error f

/-- Runs a job alone, with all that it leaves running. Of two sides the left is run first,
    so the fault of a pair is the left one if there is any. -/
def run {α : Type} : Job α → World → Except Fault α × World
  | done a, w => (.ok a, w)
  | fail f, w => (.error f, w)
  | ask q k, w => (k (q.reply w)).run (w.after q)
  | both l r k, w =>
    let x := l.run w
    let y := r.run x.2
    (k x.1 y.1).run y.2
  | pair l r k, w =>
    let x := l.run w
    let y := r.run x.2
    (k (joint x.1 y.1)).run y.2

/-! ## How the parts of a job run -/

theorem run_bind {α β : Type} (j : Job α) (f : α → Job β) (w : World) :
    (j.bind f).run w = match j.run w with
      | (.ok a, v) => (f a).run v
      | (.error e, v) => (.error e, v) := by
  induction j generalizing w with
  | done a => rfl
  | fail e => rfl
  | ask q k ih => exact ih _ f _
  | both l r k _ _ ih => exact ih _ _ f _
  | pair l r k _ _ ih => exact ih _ f _

theorem run_ofExcept {α : Type} (r : Except Fault α) (w : World) : (ofExcept r).run w = (r, w) := by
  cases r <;> rfl

end Job

end NodeGauge
