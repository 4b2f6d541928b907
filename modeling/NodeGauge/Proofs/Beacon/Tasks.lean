/-
  NodeGauge.Proofs.Beacon.Tasks — the two requests of a head's lookup, each to its own end.
  The first fault ends the lookup, and the other request runs on as a task (`Stands`). As
  neither request notices the other, each makes as many requests in all as it makes alone,
  whether the lookup still waits for it or not: never more on the way, and just as many
  once all is at its end (`Stands.gets_le`, `Stands.gets_eq`).
-/

import NodeGauge.Job.Tasks
import NodeGauge.Proofs.Beacon.Lookup

namespace NodeGauge.Beacon

open Job

variable {cfg : Settings} {w v u : World} {e d : Endpoint} {j j' : Job Json} {ts : List Task}

/-! ## One request under way -/

theorem seen_of_step (hd : d ≠ e) (s : Step j v j' u ts) (hj : j.Straight (Fetches d)) : Seen e v u := by
  obtain ⟨-, rfl | ⟨q, hq, rfl⟩⟩ := s.uses hj.uses
  · exact Seen.refl e _
  · exact (apart_fetch hd).aside q _ _ hq (Seen.refl e _)

theorem seen_run (h : Seen e v u) (hj : j.Straight (Fetches e)) :
    j.answer v = j.answer u ∧ Seen e (j.run v).2 (j.run u).2 := by
  have hother : ∃ d, d ≠ e := by
    cases e with
    | header => exact ⟨.checkpoints, by decide⟩
    | checkpoints => exact ⟨.header, by decide⟩
  obtain ⟨d, hd⟩ := hother
  have hapart := apart_fetch hd
  exact run_congr (fun q w v hq h => ⟨hapart.reply q w v hq h, hapart.after q w v hq h⟩) hj.uses h

/-- How often an endpoint is asked by a lookup of it that runs alone. -/
def total (cfg : Settings) (w : World) (e : Endpoint) : Nat := ((fetch e (waits cfg.maxRetryTime)).run w).2.gets e

/-- The job is what is left at `v` of the lookup of an endpoint that began at `w`: alone it
    comes to what that lookup comes to, with as many requests in all. -/
structure Going (cfg : Settings) (w : World) (e : Endpoint) (j : Job Json) (v : World) : Prop where
  straight : j.Straight (Fetches e)
  answer : j.answer v = fetched cfg w e
  gets : (j.run v).2.gets e = total cfg w e

theorem going_first (cfg : Settings) (w : World) (e : Endpoint) : Going cfg w e (fetch e (waits cfg.maxRetryTime)) w :=
  ⟨fetch_straight e _, rfl, rfl⟩

namespace Going

theorem step (h : Going cfg w e j v) (s : Step j v j' u ts) : Going cfg w e j' u := by
  obtain ⟨hj, hrun, -⟩ := s.straight h.straight
  refine ⟨hj, ?_, ?_⟩
  · rw [Job.answer, hrun]
    exact h.answer
  · rw [hrun]
    exact h.gets

/-- What the other request does is not noticed. -/
theorem beside (h : Going cfg w e j v) (hs : Seen e v u) : Going cfg w e j u := by
  obtain ⟨hanswer, hseen⟩ := seen_run hs h.straight
  exact ⟨h.straight, hanswer ▸ h.answer, hseen.gets.trans h.gets⟩

theorem gets_le (h : Going cfg w e j v) : v.gets e ≤ total cfg w e := by
  rw [← h.gets]
  exact run_keeps (I := fun u => v.gets e ≤ u.gets e)
    (fun q u _ hu => Nat.le_trans hu (by rw [gets_after]; exact Nat.le_add_right ..)) h.straight.uses (Nat.le_refl _)

theorem ended {x : Except Fault Json} (h : Going cfg w e j v) (hx : j.outcome? = some x) :
    fetched cfg w e = x ∧ v.gets e = total cfg w e := by
  have hrun := run_of_outcome (w := v) hx
  rw [← h.answer, ← h.gets, Job.answer, hrun]
  exact ⟨rfl, rfl⟩

theorem patient (h : Going cfg w e j v) : j.Uses fun q => ∀ m, q.ready m = true :=
  h.straight.uses.mono fun _ hq => hq.requests.ready

/-- Left running, it can come to its end. -/
theorem exists_ticks (h : Going cfg w e j v) (i : Job Head) :
    ∃ (u : World) (j' : Job Json), Ticks ⟨i, [⟨j⟩], v⟩ ⟨i, [⟨j'⟩], u⟩ ∧ j'.outcome?.isSome = true := by
  obtain ⟨x, u, j', hj, hx⟩ := exists_ends h.patient v
  have hstraight := h.straight
  refine ⟨u, j', ?_, Option.isSome_iff_exists.mpr ⟨x, hx⟩⟩
  clear hx h
  induction hj with
  | refl => exact .refl
  | tail hbefore t ih =>
    have hnone := (t.straight (hbefore.straight hstraight).1).2.2
    subst hnone
    exact ih.tail (@Tick.task _ i _ _ _ [] [] _ _ _ t)

end Going

/-! ## The lookup and what it leaves running -/

/-- How a lookup stands that began at `w`: it waits for both requests, it has met both their
    data, or one request has failed and the other runs on. -/
inductive Stands (cfg : Settings) (w : World) : Running Head → Prop where
  | waiting {l r : Job Json} {v : World} (hl : Going cfg w .header l v) (hr : Going cfg w .checkpoints r v) :
    Stands cfg w ⟨.pair l r fun x => ofExcept (headOf cfg x), [], v⟩
  | met {header checkpoints : Json} {v : World} (hl : Going cfg w .header (.done header) v)
    (hr : Going cfg w .checkpoints (.done checkpoints) v) :
    Stands cfg w ⟨ofExcept (headOf cfg (.ok (header, checkpoints))), [], v⟩
  | failed {e d : Endpoint} {f : Fault} {j : Job Json} {v : World} (hne : d ≠ e) (he : Going cfg w e (.fail f) v)
    (hd : Going cfg w d j v) : Stands cfg w ⟨ofExcept (headOf cfg (.error f)), [⟨j⟩], v⟩

theorem stands_first (cfg : Settings) (w : World) : Stands cfg w ⟨head cfg, [], w⟩ := by
  rw [head_eq]
  exact .waiting (going_first cfg w .header) (going_first cfg w .checkpoints)

theorem outcome_ofExcept {α : Type} (x : Except Fault α) : (ofExcept x).outcome? = some x := by
  cases x <;> rfl

theorem ended_nil {α : Type} (x : Except Fault α) (v : World) : Running.Ended ⟨ofExcept x, [], v⟩ :=
  ⟨Option.isSome_iff_exists.mpr ⟨x, outcome_ofExcept x⟩, fun _ ht => absurd ht List.not_mem_nil⟩

variable {s s' : Running Head}

theorem Stands.tick (h : Stands cfg w s) (t : Tick s s') : Stands cfg w s' := by
  cases h with
  | waiting hl hr =>
    generalize hts : ([] : List Task) = ts at t
    cases t with
    | job t =>
      subst hts
      cases t with
      | pairLeft _ t =>
        rw [(t.straight hl.straight).2.2]
        exact .waiting (hl.step t) (hr.beside (seen_of_step (by decide) t hl.straight))
      | pairRight _ t =>
        rw [(t.straight hr.straight).2.2]
        exact .waiting (hl.beside (seen_of_step (by decide) t hr.straight)) (hr.step t)
      | meet => exact .met hl hr
      | quitLeft => exact .failed (by decide) hl hr
      | quitRight => exact .failed (by decide) hr hl
    | task _ => simp at hts
  | met _ _ =>
    generalize hts : ([] : List Task) = ts at t
    cases t with
    | job t => exact absurd t (not_step_of_outcome (outcome_ofExcept _))
    | task _ => simp at hts
  | @failed e d f j v hne he hd =>
    generalize hts : [Task.mk j] = ts at t
    cases t with
    | job t => exact absurd t (not_step_of_outcome (outcome_ofExcept _))
    | @task _ _ _ _ front back _ _ _ t =>
      obtain ⟨rfl, ⟨rfl, hj⟩, rfl⟩ : front = [] ∧ (_ ∧ _) ∧ back = [] := by
        simpa [List.singleton_eq_append_iff] using hts
      obtain rfl := eq_of_heq hj
      rw [(t.straight hd.straight).2.2]
      exact .failed hne (he.beside (seen_of_step hne t hd.straight)) (hd.step t)

/-- However the lookup and its requests take turns. -/
theorem Stands.ticks (h : Stands cfg w s) (hs : Ticks s s') : Stands cfg w s' := by
  induction hs with
  | refl => exact h
  | tail _ t ih => exact ih.tick t

/-- For each endpoint there is what is left of its request. -/
theorem Stands.going (h : Stands cfg w s) (e : Endpoint) :
    ∃ j, Going cfg w e j s.world ∧ (s.Ended → j.outcome?.isSome = true) := by
  cases h with
  | @waiting l r v hl hr =>
    have hnever : ∀ {p : Prop}, Running.Ended ⟨.pair l r fun x => ofExcept (headOf cfg x), [], v⟩ → p :=
      fun hended => Bool.noConfusion hended.1
    cases e with
    | header => exact ⟨_, hl, hnever⟩
    | checkpoints => exact ⟨_, hr, hnever⟩
  | met hl hr =>
    cases e with
    | header => exact ⟨_, hl, fun _ => rfl⟩
    | checkpoints => exact ⟨_, hr, fun _ => rfl⟩
  | @failed b d f j v hne he hd =>
    by_cases hb : e = b
    · subst hb
      exact ⟨_, he, fun _ => rfl⟩
    · obtain rfl : e = d := by cases e <;> cases b <;> cases d <;> first | rfl | exact absurd rfl hb | exact absurd rfl hne
      exact ⟨_, hd, fun hended => hended.2 _ (List.mem_singleton_self _)⟩

theorem Stands.gets_le (h : Stands cfg w s) (e : Endpoint) : s.world.gets e ≤ total cfg w e := by
  obtain ⟨j, hj, -⟩ := h.going e
  exact hj.gets_le

/-- Once the lookup and both requests are at their end. -/
theorem Stands.gets_eq (h : Stands cfg w s) (hended : s.Ended) (e : Endpoint) : s.world.gets e = total cfg w e := by
  obtain ⟨j, hj, hends⟩ := h.going e
  obtain ⟨x, hx⟩ := Option.isSome_iff_exists.mp (hends hended)
  exact (hj.ended hx).2

/-- A lookup that told a head has met the data of both requests, and nothing is left of them. -/
theorem Stands.told (h : Stands cfg w s) {found : Head} (hs : s.job.outcome? = some (.ok found)) :
    s.Ended ∧ ∀ e, ∃ data, fetched cfg w e = .ok data := by
  cases h with
  | waiting _ _ => cases hs
  | met hl hr =>
    refine ⟨ended_nil _ _, fun e => ?_⟩
    cases e with
    | header => exact ⟨_, (hl.ended rfl).1⟩
    | checkpoints => exact ⟨_, (hr.ended rfl).1⟩
  | failed _ _ _ => cases hs

/-- A lookup that a fault has ended, and the request that runs on. -/
theorem Going.exists_ended (h : Going cfg w e j v) (x : Except Fault Head) :
    ∃ s, Ticks ⟨ofExcept x, [⟨j⟩], v⟩ s ∧ s.Ended := by
  obtain ⟨u, j', hticks, hj⟩ := h.exists_ticks (ofExcept x)
  refine ⟨_, hticks, Option.isSome_iff_exists.mpr ⟨x, outcome_ofExcept x⟩, fun t ht => ?_⟩
  rwa [List.mem_singleton.mp ht]

/-- From wherever they stand, the lookup and its requests can come to their end. -/
theorem Stands.exists_ended (h : Stands cfg w s) : ∃ s', Ticks s s' ∧ s'.Ended := by
  cases h with
  | @waiting l r v hl hr =>
    have hpatient : (Job.pair l r fun x => ofExcept (headOf cfg x)).Uses fun q => ∀ m, q.ready m = true :=
      ⟨hl.patient, hr.patient, fun x => uses_ofExcept _⟩
    obtain ⟨x, u, j, hj, hx⟩ := exists_ends hpatient v
    obtain ⟨left, hticks⟩ := hj.ticks []
    -- The lookup alone has come to its end; what it has left running is told by how it stands there.
    have hstands := (Stands.waiting hl hr).ticks hticks
    generalize hs : (⟨j, [] ++ left, u⟩ : Running Head) = s at hticks hstands
    cases hstands with
    | waiting _ _ =>
      cases hs
      cases hx
    | met _ _ => exact ⟨_, hticks, ended_nil _ _⟩
    | failed _ _ hd =>
      obtain ⟨s', hticks', hended⟩ := hd.exists_ended _
      exact ⟨s', hticks.trans hticks', hended⟩
  | met _ _ => exact ⟨_, .refl, ended_nil _ _⟩
  | failed _ _ hd => exact hd.exists_ended _

end NodeGauge.Beacon
