/-
  NodeGauge.Job.Schedule — jobs that take turns. A step is one ask of one side of a fork,
  and any side may be next; a fork whose sides have both ended is followed by what comes
  after it. A pair of which one side has failed is given up at once, before the other side
  has its next step, so its fault is the first in time; the step names the other side as a
  task that it leaves running (`NodeGauge.Job.Tasks` lets these run on). An ask for a lock
  that is held has no step. Between steps the world may change by itself: jobs of other
  threads are on the other side of a fork, and what `outside` gives is that of the moment.
-/

import NodeGauge.Job

namespace NodeGauge.Job

def outcome? {α : Type} : Job α → Option (Except Fault α)
  | done a => some (.ok a)
  | fail f => some (.error f)
  | _ => none

def failed {α : Type} : Job α → Bool
  | fail _ => true
  | _ => false

/-- A job that runs on for itself; nobody waits for its outcome. -/
structure Task where
  {α : Type}
  job : Job α

/-- A job and its world, one step before and after, and what the step leaves running. -/
inductive Step : {α : Type} → Job α → World → Job α → World → List Task → Prop where
  | ask {α : Type} {q : Ask} {k : q.Reply → Job α} {w : World} (h : q.ready w.memory = true) :
    Step (.ask q k) w (k (q.reply w)) (w.after q) []
  | left {α β γ : Type} {l l' : Job β} {r : Job γ} {k : Except Fault β → Except Fault γ → Job α} {w w' : World}
    {ts : List Task} (h : Step l w l' w' ts) : Step (.both l r k) w (.both l' r k) w' ts
  | right {α β γ : Type} {l : Job β} {r r' : Job γ} {k : Except Fault β → Except Fault γ → Job α} {w w' : World}
    {ts : List Task} (h : Step r w r' w' ts) : Step (.both l r k) w (.both l r' k) w' ts
  | join {α β γ : Type} {l : Job β} {r : Job γ} {k : Except Fault β → Except Fault γ → Job α} {w : World}
    {x : Except Fault β} {y : Except Fault γ} (hl : l.outcome? = some x) (hr : r.outcome? = some y) :
    Step (.both l r k) w (k x y) w []
  | pairLeft {α β γ : Type} {l l' : Job β} {r : Job γ} {k : Except Fault (β × γ) → Job α} {w w' : World}
    {ts : List Task} (hr : r.failed = false) (h : Step l w l' w' ts) : Step (.pair l r k) w (.pair l' r k) w' ts
  | pairRight {α β γ : Type} {l : Job β} {r r' : Job γ} {k : Except Fault (β × γ) → Job α} {w w' : World}
    {ts : List Task} (hl : l.failed = false) (h : Step r w r' w' ts) : Step (.pair l r k) w (.pair l r' k) w' ts
  | meet {α β γ : Type} {b : β} {c : γ} {k : Except Fault (β × γ) → Job α} {w : World} :
    Step (.pair (.done b) (.done c) k) w (k (.ok (b, c))) w []
  | quitLeft {α β γ : Type} {f : Fault} {r : Job γ} {k : Except Fault (β × γ) → Job α} {w : World} :
    Step (.pair (.fail f) r k) w (k (.error f)) w [⟨r⟩]
  | quitRight {α β γ : Type} {l : Job β} {f : Fault} {k : Except Fault (β × γ) → Job α} {w : World} :
    Step (.pair l (.fail f) k) w (k (.error f)) w [⟨l⟩]

/-- Any number of steps of the job alone; what it leaves running has none of them. -/
inductive Steps {α : Type} : Job α → World → Job α → World → Prop where
  | refl {j : Job α} {w : World} : Steps j w j w
  | tail {j j' j'' : Job α} {w w' w'' : World} {ts : List Task} (h : Steps j w j' w') (s : Step j' w' j'' w'' ts) :
    Steps j w j'' w''

end NodeGauge.Job
