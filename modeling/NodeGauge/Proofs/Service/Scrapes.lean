/-
  NodeGauge.Proofs.Service.Scrapes — what a scrape shows. Any number of requests may be on
  at once, beside a refresh of the snapshot and all else that goes on (`Move`). The metrics
  on show are one cell for all of them, which a cycle that fails leaves as it was. But a
  request holds the lock of the scrapes from before its cycle until it has its text, so one
  at most is inside (`Sound.one`), and what is on show when it looks is what it put there
  (`Turn.fits`). A cycle does not look at what is on show (`collect_unshown`).

  So every answer is the page of the request's own cycle, and a cycle that fails gives none:
  `answers_own_cycle`.
-/

import Mathlib.Logic.Relation
import NodeGauge.Proofs.Cycle.Faults
import NodeGauge.Snapshot.Refresh

namespace NodeGauge.Service

open Job
open Relation (ReflTransGen)

/-! ## The parts of a scrape -/

variable (fmt : Exposition.Format) (cfg : Settings) (node : Address)

/-- The answer that shows these metrics. -/
def page (m : Option Metrics) : Response := ⟨fmt.contentType, Exposition.render fmt (Exposition.collect m)⟩

theorem page_none : (page fmt none).body = Text.empty := rfl

/-- What is left of a scrape once its cycle has come to something. -/
def answer : Except Fault (Option Metrics) → Job Response
  | .ok m => ask (.display m) fun _ => ask .shown fun shown => ask (.release .scrape) fun _ => done (page fmt shown)
  | .error f => ask (.release .scrape) fun _ => fail f

theorem scrape_parts :
    scrape fmt cfg node = ask (.acquire .scrape) fun _ => (Cycle.collect cfg node).attempt.bind (answer fmt) := by
  rw [Cycle.scrape_eq, withLock_eq, attempt_bind]
  congr 1
  funext _
  rw [bind_assoc]
  congr 1
  funext c
  cases c <;> rfl

/-- Asks that have nothing to do with what is on show. -/
def Unshown : Ask → Prop
  | .shown | .display _ | .acquire .scrape | .release .scrape => False
  | _ => True

theorem collect_unshown : (Cycle.collect cfg node).Uses Unshown := by
  have hs : ∀ q, Cycle.Settles q → Unshown q := fun q h => by cases q <;> trivial
  have hb : ∀ q, Beacon.Requests q → Unshown q := fun q h => by cases q <;> trivial
  have hp : ∀ q, Cycle.Peeks q → Unshown q := fun q h => by cases q <;> trivial
  have hr : ∀ q, Cycle.Reports q → Unshown q := fun q h => by cases q <;> trivial
  show (withLock .cycle (Cycle.body cfg node)).Uses Unshown
  rw [withLock_eq]
  exact ⟨trivial, fun _ => uses_bind (uses_attempt (Cycle.body_uses hs hb hr hp cfg node)) fun r =>
    ⟨trivial, fun _ => uses_ofExcept r⟩⟩

theorem refresh_unshown : (Snapshot.refresh cfg.snapshotPath).Uses Unshown := by
  unfold Snapshot.refresh
  refine uses_bind (uses_send trivial) fun c => ?_
  split
  · exact uses_bind (uses_send trivial) fun _ => trivial
  · trivial
  · refine uses_bind (uses_ofExcept _) fun j => uses_bind (uses_ofExcept _) fun p => ?_
    exact uses_bind (uses_send trivial) fun _ => trivial

/-! ## Requests -/

inductive Request where
  | waiting
  | cycling (left : Job (Option Metrics))
  /-- What its cycle came to, and what is left of the request. -/
  | answering (cycle : Except Fault (Option Metrics)) (left : Job Response)

namespace Request

/-- What is left of the scrape. -/
def job : Request → Job Response
  | waiting => scrape fmt cfg node
  | cycling left => left.attempt.bind (answer fmt)
  | answering _ left => left

def inside : Request → Bool
  | waiting => false
  | cycling _ => true
  | answering _ left => left.outcome?.isNone

end Request

inductive Turn : Request → World → Request → World → Prop where
  | enter {w : World} (h : Ask.ready w.memory (.acquire .scrape) = true) :
    Turn .waiting w (.cycling (Cycle.collect cfg node)) (w.after (.acquire .scrape))
  | cycle {left left' : Job (Option Metrics)} {w v : World} {ts : List Task} (h : Step left w left' v ts) :
    Turn (.cycling left) w (.cycling left') v
  /-- The cycle has come to something. -/
  | told {cycle : Job (Option Metrics)} {c : Except Fault (Option Metrics)} {left : Job Response} {w v : World}
    {ts : List Task} (hc : cycle.outcome? = some c) (h : Step (answer fmt c) w left v ts) :
    Turn (.cycling cycle) w (.answering c left) v
  | answer {c : Except Fault (Option Metrics)} {left left' : Job Response} {w v : World} {ts : List Task}
    (h : Step left w left' v ts) : Turn (.answering c left) w (.answering c left') v

theorem attempt_eq_done_iff {α : Type} {j : Job α} {x : Except Fault α} : j.attempt = done x ↔ j.outcome? = some x := by
  cases j <;> simp [Job.attempt, outcome?]

/-- The steps of requests are the steps of scrapes. -/
theorem step_job_iff {r : Request} {w v : World} {j : Job Response} :
    (∃ ts, Step (r.job fmt cfg node) w j v ts) ↔ ∃ r', Turn fmt cfg node r w r' v ∧ j = r'.job fmt cfg node := by
  constructor
  · intro h
    obtain ⟨_, h⟩ := h
    cases r with
    | waiting =>
      rw [Request.job, scrape_parts] at h
      cases h with
      | ask hfree => exact ⟨_, .enter hfree, rfl⟩
    | cycling left =>
      rcases step_bind h with ⟨c, hc, htold⟩ | ⟨left', hcycle, rfl⟩
      · exact ⟨_, .told (attempt_eq_done_iff.mp hc) htold, rfl⟩
      · obtain ⟨_, hleft, rfl⟩ := step_attempt hcycle
        exact ⟨_, .cycle hleft, rfl⟩
    | answering c left => exact ⟨_, .answer h, rfl⟩
  · intro h
    obtain ⟨r', h, rfl⟩ := h
    cases h with
    | enter hfree =>
      rw [Request.job, scrape_parts]
      exact ⟨_, .ask hfree⟩
    | cycle h => exact ⟨_, h.attempt.bind (answer fmt)⟩
    | told hc h =>
      rw [Request.job, attempt_eq_done_iff.mpr hc]
      exact ⟨_, h⟩
    | answer h => exact ⟨_, h⟩

/-! ## Requests at once -/

/-- The requests there are and were, what is left of the refresh that is on, and the world. -/
structure Serving where
  requests : List Request
  refresh : Job Bool
  world : World

def Serving.first (w : World) : Serving := ⟨[], Snapshot.refresh cfg.snapshotPath, w⟩

inductive Move : Serving → Serving → Prop where
  | arrive {rs : List Request} {j : Job Bool} {w : World} : Move ⟨rs, j, w⟩ ⟨rs ++ [.waiting], j, w⟩
  | request {front back : List Request} {r r' : Request} {j : Job Bool} {w v : World} (h : Turn fmt cfg node r w r' v) :
    Move ⟨front ++ r :: back, j, w⟩ ⟨front ++ r' :: back, j, v⟩
  | refresh {rs : List Request} {j j' : Job Bool} {w v : World} {ts : List Task} (h : Step j w j' v ts) :
    Move ⟨rs, j, w⟩ ⟨rs, j', v⟩
  /-- A refresh has ended, and another one begins. -/
  | again {rs : List Request} {j : Job Bool} {x : Except Fault Bool} {w : World} (h : j.outcome? = some x) :
    Move ⟨rs, j, w⟩ ⟨rs, Snapshot.refresh cfg.snapshotPath, w⟩
  /-- What goes on besides, outside and inside, also what cycles have left running; it shows
      nothing and leaves the lock alone. -/
  | besides {rs : List Request} {j : Job Bool} {w v : World} (hs : v.memory.shown = w.memory.shown)
    (hl : v.memory.held.count .scrape = w.memory.held.count .scrape) : Move ⟨rs, j, w⟩ ⟨rs, j, v⟩

abbrev Moves : Serving → Serving → Prop := ReflTransGen (Move fmt cfg node)

/-! ## One inside at most -/

def locks (w : World) : Nat := w.memory.held.count .scrape

variable {w v : World} {q : Ask}

theorem ready_iff : Ask.ready w.memory (.acquire .scrape) = true ↔ locks w = 0 := ready_acquire_iff

theorem locks_acquire : locks (w.after (.acquire .scrape)) = locks w + 1 := held_acquire

theorem locks_release : locks (w.after (.release .scrape)) = locks w - 1 := held_release

/-- Such asks leave what is on show and the lock as they are. -/
theorem unshown_after (hq : Unshown q) : (w.after q).memory.shown = w.memory.shown ∧ locks (w.after q) = locks w := by
  refine ⟨?_, held_after (by rintro rfl; exact hq) (by rintro rfl; exact hq)⟩
  cases q <;> first | rfl | exact hq.elim

theorem step_unshown {α : Type} {j j' : Job α} {ts : List Task} (h : Step j w j' v ts) (hj : j.Uses Unshown) :
    j'.Uses Unshown ∧ v.memory.shown = w.memory.shown ∧ locks v = locks w := by
  obtain ⟨hj', rfl | ⟨q, hq, rfl⟩⟩ := h.uses hj
  · exact ⟨hj', rfl, rfl⟩
  · exact ⟨hj', unshown_after hq⟩

/-- How a request stands behind its cycle, with what is on show. -/
inductive Stands (fmt : Exposition.Format) (w : World) : Except Fault (Option Metrics) → Job Response → Prop where
  | looking {m : Option Metrics} (h : w.memory.shown = m) :
    Stands fmt w (.ok m) (.ask .shown fun shown => .ask (.release .scrape) fun _ => .done (page fmt shown))
  | leaving {m : Option Metrics} : Stands fmt w (.ok m) (.ask (.release .scrape) fun _ => .done (page fmt m))
  | answered {m : Option Metrics} : Stands fmt w (.ok m) (.done (page fmt m))
  | failed {f : Fault} : Stands fmt w (.error f) (.fail f)

def Fits (fmt : Exposition.Format) (w : World) : Request → Prop
  | .waiting => True
  | .cycling left => left.Uses Unshown
  | .answering c left => Stands fmt w c left

variable {fmt cfg node} {r r' : Request}

/-- What other requests and all else do is nothing to a request while they leave what is on
    show as it is, or while it is not inside. -/
theorem Fits.besides (h : v.memory.shown = w.memory.shown ∨ r.inside = false) (hf : Fits fmt w r) : Fits fmt v r := by
  cases r with
  | waiting => trivial
  | cycling left => exact hf
  | answering c left =>
    cases hf with
    | looking hm =>
      rcases h with h | h
      · exact .looking (h.trans hm)
      · cases h
    | leaving => exact .leaving
    | answered => exact .answered
    | failed => exact .failed

/-- A turn keeps how a request stands, and the lock comes and goes with it. -/
theorem Turn.fits (ht : Turn fmt cfg node r w r' v) (hf : Fits fmt w r) (hlocks : r.inside = true → 0 < locks w) :
    Fits fmt v r' ∧ locks v + r.inside.toNat = locks w + r'.inside.toNat ∧ (r.inside = false → locks w = 0) := by
  cases ht with
  | enter hfree => exact ⟨collect_unshown cfg node, locks_acquire, fun _ => ready_iff.mp hfree⟩
  | cycle h =>
    obtain ⟨hleft, -, hl⟩ := step_unshown h hf
    exact ⟨hleft, by rw [hl]; rfl, fun hout => nomatch hout⟩
  | @told cycle c left w v _ _ h =>
    have hpos : 0 < locks w := hlocks rfl
    cases c with
    | ok m =>
      cases h with
      | ask _ => exact ⟨.looking rfl, rfl, fun hout => nomatch hout⟩
    | error f =>
      cases h with
      | ask _ =>
        refine ⟨.failed, ?_, fun hout => nomatch hout⟩
        rw [locks_release]
        exact Nat.sub_add_cancel hpos
  | @answer c left left' w v _ h =>
    have hpos : left.outcome? = none → 0 < locks w := fun hl => hlocks (by rw [Request.inside, hl]; rfl)
    cases hf with
    | looking hm =>
      cases h with
      | ask _ =>
        subst hm
        exact ⟨.leaving, rfl, fun hout => nomatch hout⟩
    | leaving =>
      cases h with
      | ask _ =>
        refine ⟨.answered, ?_, fun hout => nomatch hout⟩
        rw [locks_release]
        exact Nat.sub_add_cancel (hpos rfl)
    | answered => exact absurd h (not_step_of_outcome rfl)
    | failed => exact absurd h (not_step_of_outcome rfl)

/-- Every request stands somewhere, one of them at most is inside, and the refresh has nothing
    to do with what is on show. -/
structure Sound (fmt : Exposition.Format) (s : Serving) : Prop where
  fits : ∀ r ∈ s.requests, Fits fmt s.world r
  one : locks s.world = s.requests.countP (·.inside) ∧ locks s.world ≤ 1
  refresh : s.refresh.Uses Unshown

theorem first_sound (h : Ask.ready w.memory (.acquire .scrape) = true) : Sound fmt (.first cfg w) :=
  ⟨fun _ hr => (List.not_mem_nil hr).elim, ⟨ready_iff.mp h, by rw [ready_iff] at h; exact h ▸ Nat.zero_le 1⟩,
    refresh_unshown cfg⟩

/-- A move that leaves what is on show, the lock and the requests as they are. -/
theorem Sound.besides {rs : List Request} {j j' : Job Bool} (hs : v.memory.shown = w.memory.shown)
    (hl : locks v = locks w) (hj : j'.Uses Unshown) (h : Sound fmt ⟨rs, j, w⟩) : Sound fmt ⟨rs, j', v⟩ := by
  obtain ⟨hfits, hone, -⟩ := h
  exact ⟨fun r hr => (hfits r hr).besides (Or.inl hs), by rw [hl]; exact hone, hj⟩

theorem countP_inside (front back : List Request) (r : Request) :
    (front ++ r :: back).countP (·.inside) = (front ++ back).countP (·.inside) + r.inside.toNat := by
  rw [List.countP_append, List.countP_cons, List.countP_append]
  cases r.inside
  · simp
  · simp
    omega

/-- While a request moves, no other one is inside. -/
theorem Sound.turn {front back : List Request} {j : Job Bool} (ht : Turn fmt cfg node r w r' v)
    (h : Sound fmt ⟨front ++ r :: back, j, w⟩) : Sound fmt ⟨front ++ r' :: back, j, v⟩ := by
  obtain ⟨hfits, ⟨hcount, hone⟩, hj⟩ := h
  simp only [countP_inside] at hcount hone
  have hpos : r.inside = true → 0 < locks w := fun hin => by
    rw [hcount, hin]
    exact Nat.succ_pos _
  obtain ⟨hr', hlocks, hfree⟩ := ht.fits (hfits r (by simp)) hpos
  -- It has the lock already, or finds it free.
  have hnone : (front ++ back).countP (·.inside) = 0 := by
    cases hin : r.inside with
    | false => have := hfree hin; omega
    | true =>
      rw [hin, Bool.toNat_true] at hcount
      omega
  have hothers : ∀ x ∈ front ++ back, Fits fmt v x := fun x hx => by
    have hout : x.inside = false := by simpa using List.countP_eq_zero.mp hnone x hx
    refine (hfits x ?_).besides (Or.inr hout)
    rcases List.mem_append.mp hx with hx | hx <;> simp [hx]
  refine ⟨fun x hx => ?_, ⟨?_, ?_⟩, hj⟩
  · rcases List.mem_append.mp hx with hx | hx
    · exact hothers x (List.mem_append_left _ hx)
    · rcases List.mem_cons.mp hx with rfl | hx
      · exact hr'
      · exact hothers x (List.mem_append_right _ hx)
  · simp only [countP_inside]
    omega
  · have := r'.inside.toNat_le
    simp only
    omega

theorem Move.sound {s s' : Serving} (hm : Move fmt cfg node s s') (h : Sound fmt s) : Sound fmt s' := by
  cases hm with
  | arrive =>
    obtain ⟨hfits, hone, hj⟩ := h
    refine ⟨fun r hr => ?_, ?_, hj⟩
    · rcases List.mem_append.mp hr with hr | hr
      · exact hfits r hr
      · rw [List.mem_singleton.mp hr]
        trivial
    · rw [List.countP_append]
      exact hone
  | request ht => exact h.turn ht
  | refresh hstep =>
    obtain ⟨hj, hs, hl⟩ := step_unshown hstep h.refresh
    exact h.besides hs hl hj
  | again _ => exact h.besides rfl rfl (refresh_unshown cfg)
  | besides hs hl => exact h.besides hs hl h.refresh

theorem Moves.sound {s s' : Serving} (hm : Moves fmt cfg node s s') (h : Sound fmt s) : Sound fmt s' := by
  induction hm with
  | refl => exact h
  | tail _ hm ih => exact hm.sound ih

/-! ## What is shown -/

theorem ends_answer {c : Except Fault (Option Metrics)} {x : Except Fault Response} :
    (∃ v, Ends (answer fmt c) w x v) ↔ x = page fmt <$> c := by
  cases c with
  | error f =>
    simp only [answer, ends_ask, ends_fail, Ask.ready, true_and, exists_and_left, exists_eq, and_true]
    exact Iff.rfl
  | ok m =>
    simp only [answer, ends_ask, ends_done, Ask.ready, true_and, exists_and_left, exists_eq, and_true]
    exact Iff.rfl

/-- A request alone is answered with the page of what a cycle comes to, and fails when that
    does. -/
theorem exists_ends_scrape_iff {x : Except Fault Response} :
    (∃ v, Ends (scrape fmt cfg node) w x v) ↔
      Ask.ready w.memory (.acquire .scrape) = true ∧ ∃ c, (∃ v, Ends (Cycle.collect cfg node) w c v) ∧ x = page fmt <$> c := by
  have hcycle : ∀ c, (∃ v, Ends (Cycle.collect cfg node) (w.after (.acquire .scrape)) c v) ↔
      ∃ v, Ends (Cycle.collect cfg node) w c v := fun c => by
    rw [Cycle.exists_ends_collect_iff, Cycle.exists_ends_collect_iff, Cycle.verdict_acquire]
    simp [Ask.ready, World.after, Ask.effect]
  simp only [scrape_parts, ends_ask, ends_attempt_bind, ← hcycle]
  constructor
  · intro h
    obtain ⟨v, hfree, c, u, hc, ha⟩ := h
    exact ⟨hfree, c, ⟨u, hc⟩, ends_answer.mp ⟨v, ha⟩⟩
  · intro h
    obtain ⟨hfree, c, ⟨u, hc⟩, hx⟩ := h
    obtain ⟨v, ha⟩ := (ends_answer (w := u)).mpr hx
    exact ⟨v, hfree, c, u, hc, ha⟩

/-- However many requests are on, in whatever order they and the refreshes take turns, and
    whatever was on show at first: an answer is the page of the metrics that the request's
    own cycle came to, and empty if it came to none; a request whose cycle failed has no
    answer. No cycle looks at what is on show. A request that is alone ends so, and in no
    other way. -/
theorem answers_own_cycle {s : Serving} (hfree : Ask.ready w.memory (.acquire .scrape) = true)
    (hm : Moves fmt cfg node (.first cfg w) s) :
    (∀ cycle left, .answering cycle left ∈ s.requests →
      (∀ response, left = .done response → ∃ m, cycle = .ok m ∧ response = page fmt m) ∧
      ∀ f, left = .fail f → cycle = .error f) ∧
    (page fmt none).body = Text.empty ∧ (Cycle.collect cfg node).Uses (· ≠ .shown) ∧
    ∀ u x, (∃ v, Ends (scrape fmt cfg node) u x v) ↔ Ask.ready u.memory (.acquire .scrape) = true ∧
      ∃ c, (∃ v, Ends (Cycle.collect cfg node) u c v) ∧ x = page fmt <$> c := by
  refine ⟨fun cycle left hr => ?_, page_none fmt, (collect_unshown cfg node).mono fun q hq => ?_,
    fun _ _ => exists_ends_scrape_iff⟩
  · have hstands : Stands fmt s.world cycle left := (hm.sound (first_sound hfree)).fits _ hr
    constructor
    · rintro response rfl
      cases hstands with
      | answered => exact ⟨_, rfl, rfl⟩
    · rintro f rfl
      cases hstands with
      | failed => rfl
  · rintro rfl
    exact hq

/-! ### A request behind one that failed -/

/-- The steps of a request alone, as moves. -/
theorem moves_steps (front back : List Request) (refresh : Job Bool) {j : Job Response}
    (h : Steps (r.job fmt cfg node) w j v) :
    ∃ r', Moves fmt cfg node ⟨front ++ r :: back, refresh, w⟩ ⟨front ++ r' :: back, refresh, v⟩ ∧ j = r'.job fmt cfg node := by
  induction h with
  | refl => exact ⟨r, .refl, rfl⟩
  | tail _ hs ih =>
    obtain ⟨r₁, hm, rfl⟩ := ih
    obtain ⟨r', ht, hj⟩ := (step_job_iff fmt cfg node).mp ⟨_, hs⟩
    exact ⟨r', hm.tail (.request ht), hj⟩

/-- A request that has ended is behind its cycle. -/
theorem Request.ended {x : Except Fault Response} (h : (r.job fmt cfg node).outcome? = some x) :
    ∃ cycle, r = .answering cycle (ofExcept x) := by
  cases r with
  | waiting =>
    rw [Request.job, scrape_parts] at h
    cases h
  | cycling left =>
    cases left <;> cases h
  | answering cycle left =>
    cases left <;> cases h <;> exact ⟨cycle, rfl⟩

/-- A request that comes when the locks are free can be answered as it would be alone. -/
theorem moves_ends (front : List Request) (refresh : Job Bool) {x : Except Fault Response}
    (h : Ends (scrape fmt cfg node) w x v) :
    ∃ cycle, Moves fmt cfg node ⟨front, refresh, w⟩ ⟨front ++ [.answering cycle (ofExcept x)], refresh, v⟩ := by
  obtain ⟨j, hsteps, hx⟩ := h
  obtain ⟨r', hm, rfl⟩ := moves_steps (r := .waiting) front [] refresh hsteps
  obtain ⟨cycle, rfl⟩ := Request.ended hx
  exact ⟨cycle, .head .arrive hm⟩

def showing (w : World) (m : Option Metrics) : World := { w with memory := { w.memory with shown := m } }

theorem verdict_showing (m : Option Metrics) : Cycle.verdict cfg node (showing w m) = Cycle.verdict cfg node w := by
  have hlevel : Cycle.Level w (showing w m) := ⟨⟨rfl, rfl, rfl⟩, fun _ => ⟨rfl, rfl⟩⟩
  exact hlevel.verdictOn cfg node _

/-- Metrics from before. -/
def stale : Metrics := ⟨1, 1, 1, 1, 1, 1, 1, 1, 1, 1, 1, 1, 1, 1, 1, 1, 1, 1, 1, 1⟩

def onesFormat : Exposition.Format := ⟨"text/plain; version=1.0.0; charset=utf-8", fun _ => "1.0"⟩

def staleWorld : World := showing (Cycle.quietWorld Cycle.owingSnapshot (some 0)) (some stale)

/-- The same where nothing is installed. -/
def emptied (m : Option Metrics) : World := { staleWorld with memory := { shown := m } }

/-- The cycle of the first request fails and leaves old metrics on show; that of the second
    comes to nothing, and its answer is empty. -/
theorem answers_own_cycle_behind_failure :
    ∃ s m, Moves onesFormat {} Cycle.owingNode (.first {} staleWorld) s ∧
      s.requests = [.answering (.error .amountOutOfRange) (.fail .amountOutOfRange),
        .answering (.ok m) (.done (page onesFormat m))] ∧ (page onesFormat m).body = Text.empty := by
  have hfree : Ask.ready staleWorld.memory (.acquire .scrape) = true := rfl
  have hfails : Cycle.verdict {} Cycle.owingNode staleWorld = .error .amountOutOfRange :=
    (verdict_showing _).trans Cycle.owing_verdict
  obtain ⟨v, hv⟩ := exists_ends_scrape_iff.mpr ⟨hfree, _, Cycle.exists_ends_collect_iff.mpr ⟨rfl, hfails.symm⟩, rfl⟩
  obtain ⟨c, hm⟩ : ∃ c, Moves onesFormat {} Cycle.owingNode (.first {} staleWorld)
      ⟨[.answering c (.fail .amountOutOfRange)], (Serving.first {} staleWorld).refresh, v⟩ := moves_ends [] _ hv
  have hlocks : locks v = 0 := (hm.sound (first_sound hfree)).one.1
  have hnone : Cycle.verdict {} Cycle.owingNode (emptied v.memory.shown) = .ok none := rfl
  obtain ⟨v', hv'⟩ := exists_ends_scrape_iff.mpr
    ⟨rfl, _, Cycle.exists_ends_collect_iff.mpr ⟨rfl, hnone.symm⟩, rfl⟩
  obtain ⟨c', hm'⟩ : ∃ c', Moves onesFormat {} Cycle.owingNode
      ⟨[.answering c (.fail .amountOutOfRange)], (Serving.first {} staleWorld).refresh, emptied v.memory.shown⟩
      ⟨[.answering c (.fail .amountOutOfRange), .answering c' (.done (page onesFormat none))],
        (Serving.first {} staleWorld).refresh, v'⟩ := moves_ends [_] _ hv'
  have hkept : (emptied v.memory.shown).memory.shown = v.memory.shown := rfl
  have hall := hm.trans (.head (.besides hkept hlocks.symm) hm')
  obtain ⟨hends, hempty, -⟩ := answers_own_cycle hfree hall
  obtain rfl : c = .error .amountOutOfRange := (hends c (.fail .amountOutOfRange) (by simp)).2 _ rfl
  obtain ⟨m, rfl, hpage⟩ := (hends c' (.done (page onesFormat none)) (by simp)).1 _ rfl
  rw [hpage] at hall hempty
  exact ⟨_, m, hall, rfl, hempty⟩

end NodeGauge.Service
