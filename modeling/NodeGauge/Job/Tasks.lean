/-
  NodeGauge.Job.Tasks — a job with all that it has left running. The side of a pair that
  nobody waits for any longer is a task of its own: it takes its turns beside the job and
  the other tasks, also when the job has ended, and may be stopped anywhere.
-/

import Mathlib.Logic.Relation
import NodeGauge.Job.Schedule

namespace NodeGauge.Job

open Relation (ReflTransGen)

structure Running (α : Type) where
  job : Job α
  tasks : List Task
  world : World

/-- A step of the job or of a task; what it leaves running comes last. -/
inductive Tick {α : Type} : Running α → Running α → Prop where
  | job {j j' : Job α} {ts left : List Task} {w w' : World} (s : Step j w j' w' left) :
    Tick ⟨j, ts, w⟩ ⟨j', ts ++ left, w'⟩
  | task {j : Job α} {β : Type} {t t' : Job β} {front back left : List Task} {w w' : World} (s : Step t w t' w' left) :
    Tick ⟨j, front ++ ⟨t⟩ :: back, w⟩ ⟨j, front ++ ⟨t'⟩ :: (back ++ left), w'⟩

abbrev Ticks {α : Type} : Running α → Running α → Prop := ReflTransGen Tick

def Running.Ended {α : Type} (s : Running α) : Prop :=
  s.job.outcome?.isSome = true ∧ ∀ t ∈ s.tasks, t.job.outcome?.isSome = true

/-- The steps of a job are steps of it beside its tasks. -/
theorem Steps.ticks {α : Type} {j j' : Job α} {w v : World} (h : Steps j w j' v) (ts : List Task) :
    ∃ left, Ticks ⟨j, ts, w⟩ ⟨j', ts ++ left, v⟩ := by
  induction h with
  | refl => exact ⟨[], by rw [List.append_nil]⟩
  | @tail _ _ _ _ _ more _ s ih =>
    obtain ⟨left, h⟩ := ih
    exact ⟨left ++ more, List.append_assoc ts left more ▸ h.tail (.job s)⟩

end NodeGauge.Job
