/-
  NodeGauge.Proofs.Cycle.Updates — a cycle beside the thread that installs snapshots. An
  update installs a snapshot and the total that came with it in one step, but a cycle looks
  at them one after the other. So the updates fall into those before its first look, those
  between the two and those after, and it comes to what a cycle would come to with the
  snapshot of the first part and the total of the first two (`collect_beside_installs`).

  With no update between the looks the two came together. With one they need not, and the
  cycle emits what no state of the network gives (`mixed_pair`).
-/

import NodeGauge.Proofs.Cycle.Outcome

namespace NodeGauge.Cycle

open Job

variable {w v : World} {cfg : Settings} {node : Address}

/-! ## Updates -/

/-- What one update installs. -/
structure Update where
  snapshot : Snapshot
  total : Option Wei

/-- Updates one after the other. -/
def installs : List Update → Job Unit
  | [] => .done ()
  | u :: us => .ask (.install u.snapshot u.total) fun _ => installs us

/-- The world once they are made. -/
def installed (w : World) (us : List Update) : World :=
  us.foldl (fun w u => w.after (.install u.snapshot u.total)) w

def Installs : Ask → Prop
  | .install .. => True
  | _ => False

theorem installs_installs (us : List Update) : (installs us).Uses Installs := by
  induction us with
  | nil => trivial
  | cons u us ih => exact ⟨trivial, fun _ => ih⟩

/-- The steps of updates are so many of them. -/
theorem steps_installs_iff {us : List Update} {j : Job Unit} :
    Steps (installs us) w j v ↔ ∃ made left, us = made ++ left ∧ j = installs left ∧ v = installed w made := by
  constructor
  · intro h
    generalize hi : installs us = i at h
    induction h with
    | refl => exact ⟨[], us, rfl, hi.symm, rfl⟩
    | tail _ s ih =>
      obtain ⟨made, left, rfl, rfl, rfl⟩ := ih
      cases left with
      | nil => exact absurd s (not_step_of_outcome rfl)
      | cons u left =>
        cases s with
        | ask _ => exact ⟨made ++ [u], left, by simp, rfl, by simp [installed]⟩
  · intro h
    obtain ⟨made, left, rfl, rfl, rfl⟩ := h
    induction made generalizing w with
    | nil => exact .refl
    | cons u made ih => exact Steps.head (.ask rfl) ih

theorem level_install (snapshot : Snapshot) (total : Option Wei) : Level w (w.after (.install snapshot total)) :=
  ⟨same_after (.install snapshot total) trivial, fun _ => Beacon.seen_after rfl⟩

theorem level_installed (w : World) (us : List Update) : Level w (installed w us) := by
  induction us generalizing w with
  | nil => exact Level.refl w
  | cons u us ih => exact (level_install u.snapshot u.total).trans (ih _)

theorem installed_held (w : World) (us : List Update) : (installed w us).memory.held = w.memory.held := by
  induction us generalizing w with
  | nil => rfl
  | cons u us ih => exact ih _

/-- What is installed behind some updates hangs on what was there before and on them alone. -/
theorem installed_congr (h : v.memory.snapshot = w.memory.snapshot) (h' : v.memory.total = w.memory.total)
    (us : List Update) :
    (installed v us).memory.snapshot = (installed w us).memory.snapshot ∧
      (installed v us).memory.total = (installed w us).memory.total := by
  induction us generalizing w v with
  | nil => exact ⟨h, h'⟩
  | cons u us ih => exact ih rfl rfl

theorem installed_append (w : World) (us us' : List Update) :
    installed w (us ++ us') = installed (installed w us) us' :=
  List.foldl_append

/-- An ask between updates that leaves the snapshot and the total alone can be left out. -/
theorem installed_resumed {q : Ask}
    (hq : ∀ u : World, (u.after q).memory.snapshot = u.memory.snapshot ∧ (u.after q).memory.total = u.memory.total)
    (w : World) (made more : List Update) :
    (installed ((installed w made).after q) more).memory.snapshot = (installed w (made ++ more)).memory.snapshot ∧
      (installed ((installed w made).after q) more).memory.total = (installed w (made ++ more)).memory.total := by
  rw [installed_append]
  exact installed_congr (hq _).1 (hq _).2 more

/-! ## The looks of a cycle -/

/-- The rest of a cycle, once it has what it starts from. -/
def closing (cfg : Settings) (node : Address) (o : Option Basis) : Job (Option Metrics) :=
  (proceed cfg node o).attempt.bind fun r => ask (.release .cycle) fun _ => ofExcept r

/-- The rest of a cycle, once it has looked at the snapshot. -/
def looked (cfg : Settings) (node : Address) : Option Snapshot → Job (Option Metrics)
  | none => closing cfg node none
  | some s => ask .total fun t => closing cfg node (pairing node (some s) t)

theorem collect_eq (cfg : Settings) (node : Address) :
    collect cfg node = ask (.acquire .cycle) fun _ => ask .snapshot (looked cfg node) := by
  show withLock .cycle (body cfg node) = _
  rw [withLock_eq, body_eq, prepare_eq]
  congr 1
  funext _
  show ask Ask.snapshot _ = _
  congr 1
  funext s
  cases s <;> rfl

/-! ## The rest of a cycle beside updates -/

/-- Asks by which no update can be noticed. -/
def Onward : Ask → Prop
  | .snapshot | .total | .install .. | .shown | .exiting | .acquire _ => False
  | _ => True

theorem apart_onward : Apart Level Onward Installs where
  refl := Level.refl
  ready := by
    intro q w v hq _ _
    cases q <;> first | rfl | exact hq.elim
  reply := by
    intro q w v hq h
    have ho := h.same.outside
    cases q with
    | call c => cases c <;> simp only [Ask.reply, ho]
    | file path => simp only [Ask.reply, ho]
    | get e => simp only [Ask.reply, ho, (h.seen e).gets]
    | ledger => exact h.same.ledger.symm
    | commit infos block => simp only [Ask.reply, h.same.ledger]
    | rewardsPool => exact h.same.pool.symm
    | _ => first | rfl | exact hq.elim
  after := fun q _ _ _ h => h.after q
  aside := by
    intro q w v hq h
    cases q with
    | install s t => exact h.trans (level_install s t)
    | _ => exact hq.elim

/-- Nothing that a cycle does can be noticed by an update. -/
theorem apart_installs : Apart (fun _ _ => True) Installs Onward where
  refl := fun _ => trivial
  ready := by
    intro q w v hq _ _
    cases q <;> first | rfl | exact hq.elim
  reply := by
    intro q w v hq _
    cases q <;> first | rfl | exact hq.elim
  after := fun _ _ _ _ _ => trivial
  aside := fun _ _ _ _ _ => trivial

theorem closing_onward (cfg : Settings) (node : Address) (o : Option Basis) : (closing cfg node o).Uses Onward := by
  have hs : ∀ q, Settles q → Onward q := fun q h => by cases q <;> trivial
  have hb : ∀ q, Beacon.Requests q → Onward q := fun q h => by cases q <;> trivial
  have hr : ∀ q, Reports q → Onward q := fun q h => by cases q <;> trivial
  exact uses_bind (uses_attempt (proceed_uses hs hb hr cfg node o)) fun r => ⟨trivial, fun _ => uses_ofExcept r⟩

theorem ends_closing_eq {o : Option Basis} {x : Except Fault (Option Metrics)} (h : Ends (closing cfg node o) w x v) :
    x = verdictOn cfg node w o := by
  obtain ⟨r, u, hr, h⟩ := ends_attempt_bind.mp h
  rw [← ends_proceed_eq hr]
  exact (ends_ofExcept.mp (ends_ask.mp h).2).1

theorem ends_installs_eq {us : List Update} {x : Except Fault Unit} (h : Ends (installs us) w x v) : x = .ok () := by
  obtain ⟨j, h, hx⟩ := h
  obtain ⟨made, left, rfl, rfl, rfl⟩ := steps_installs_iff.mp h
  cases left with
  | nil => exact (Option.some.inj hx).symm
  | cons u left => simp [installs, outcome?] at hx

/-- Once it has what it starts from, a cycle comes to one thing whatever is installed beside it. -/
theorem exists_ends_closing_iff {o : Option Basis} {us : List Update}
    {z : Except Fault (Except Fault (Option Metrics) × Except Fault Unit)} :
    (∃ v, Ends (fork (closing cfg node o) (installs us)) w z v) ↔ z = .ok (verdictOn cfg node w o, .ok ()) := by
  have hz : ∀ {z v}, Ends (fork (closing cfg node o) (installs us)) w z v →
      z = .ok (verdictOn cfg node w o, .ok ()) := by
    intro z v h
    obtain ⟨x, y, v₁, v₂, rfl, hx, -, hy, -⟩ := Ends.of_fork apart_onward apart_installs (closing_onward cfg node o)
      (installs_installs us) h
    rw [ends_closing_eq hx, ends_installs_eq hy]
  constructor
  · intro h
    obtain ⟨v, h⟩ := h
    exact hz h
  · intro h
    have hfree : (fork (closing cfg node o) (installs us)).Uses fun q => ∀ m, q.ready m = true :=
      ⟨(closing_onward cfg node o).mono fun q hq m => by cases q <;> first | rfl | exact hq.elim,
        (installs_installs us).mono fun q hq m => by cases q <;> first | rfl | exact hq.elim, fun _ _ => trivial⟩
    obtain ⟨x, v, hends⟩ := exists_ends hfree w
    rw [h, ← hz hends]
    exact ⟨v, hends⟩

/-! ## Updates between the looks -/

/-- In front of an ask of a cycle stand so many updates. -/
theorem exists_ends_ask_iff {α : Type} {q : Ask} {f : q.Reply → Job α} {us : List Update}
    {z : Except Fault (Except Fault α × Except Fault Unit)} :
    (∃ v, Ends (fork (ask q f) (installs us)) w z v) ↔
      ∃ made left, us = made ++ left ∧ q.ready (installed w made).memory = true ∧
        ∃ v, Ends (fork (f (q.reply (installed w made))) (installs left)) ((installed w made).after q) z v := by
  simp only [fork, ends_both_ask, steps_installs_iff]
  constructor
  · intro h
    obtain ⟨v, _, _, ⟨made, left, hus, rfl, rfl⟩, hq, h⟩ := h
    exact ⟨made, left, hus, hq, v, h⟩
  · intro h
    obtain ⟨made, left, hus, hq, v, h⟩ := h
    exact ⟨v, _, _, ⟨made, left, hus, rfl, rfl⟩, hq, h⟩

variable {us : List Update} {z : Except Fault (Except Fault (Option Metrics) × Except Fault Unit)}

theorem exists_ends_looked_iff (s : Option Snapshot) :
    (∃ v, Ends (fork (looked cfg node s) (installs us)) w z v) ↔
      ∃ between after, us = between ++ after ∧
        z = .ok (verdictOn cfg node w (pairing node s (installed w between).memory.total), .ok ()) := by
  cases s with
  | none =>
    have hnone : ∀ t, pairing node none t = none := fun _ => rfl
    simp only [looked, exists_ends_closing_iff, hnone]
    constructor
    · intro h
      exact ⟨[], us, rfl, h⟩
    · intro h
      obtain ⟨_, _, -, h⟩ := h
      exact h
  | some s =>
    have hlevel : ∀ made, Level w ((installed w made).after .total) := fun made =>
      (level_installed w made).trans (level_peek trivial)
    simp only [looked, exists_ends_ask_iff, exists_ends_closing_iff, (hlevel _).verdictOn]
    exact exists_congr fun made => exists_congr fun left => and_congr_right fun _ => and_iff_right rfl

/-- The world with the snapshot that some updates leave and the total that these and
    further ones leave. -/
def taking (w : World) (before between : List Update) : World :=
  { w with memory := { w.memory with
      snapshot := (installed w before).memory.snapshot
      total := (installed w (before ++ between)).memory.total } }

theorem verdict_taking (cfg : Settings) (node : Address) (w : World) (before between : List Update) :
    verdict cfg node (taking w before between) = verdictOn cfg node w
      (pairing node (installed w before).memory.snapshot (installed w (before ++ between)).memory.total) := by
  have hlevel : Level w (taking w before between) := ⟨⟨rfl, rfl, rfl⟩, fun _ => ⟨rfl, rfl⟩⟩
  exact hlevel.verdictOn cfg node _

theorem exists_ends_look_iff :
    (∃ v, Ends (fork (ask .snapshot (looked cfg node)) (installs us)) w z v) ↔
      ∃ before between after, us = before ++ between ++ after ∧
        z = .ok (verdict cfg node (taking w before between), .ok ()) := by
  have hlevel : ∀ made, Level w ((installed w made).after .snapshot) := fun made =>
    (level_installed w made).trans (level_peek trivial)
  have hpair : ∀ before between, verdictOn cfg node ((installed w before).after .snapshot)
      (pairing node (Ask.reply (installed w before) .snapshot)
        (installed ((installed w before).after .snapshot) between).memory.total) =
      verdict cfg node (taking w before between) := fun before between => by
    rw [(hlevel before).verdictOn, (installed_resumed (fun _ => ⟨rfl, rfl⟩) w before between).2, verdict_taking]
    rfl
  simp only [exists_ends_ask_iff, exists_ends_looked_iff, hpair]
  constructor
  · intro h
    obtain ⟨before, _, rfl, -, between, after, rfl, h⟩ := h
    exact ⟨before, between, after, (List.append_assoc ..).symm, h⟩
  · intro h
    obtain ⟨before, between, after, rfl, h⟩ := h
    exact ⟨before, between ++ after, List.append_assoc .., rfl, between, after, rfl, h⟩

theorem exists_ends_beside_iff :
    (∃ v, Ends (fork (collect cfg node) (installs us)) w z v) ↔
      Ask.ready w.memory (.acquire .cycle) = true ∧
        ∃ before between after, us = before ++ between ++ after ∧
          z = .ok (verdict cfg node (taking w before between), .ok ()) := by
  have hready : ∀ made, Ask.ready (installed w made).memory (.acquire .cycle) = Ask.ready w.memory (.acquire .cycle) :=
    fun made => by simp only [Ask.ready, installed_held]
  have htaking : ∀ made before between,
      verdict cfg node (taking ((installed w made).after (.acquire .cycle)) before between) =
        verdict cfg node (taking w (made ++ before) between) := fun made before between => by
    have hlevel : Level w ((installed w made).after (.acquire .cycle)) :=
      (level_installed w made).trans (level_acquire .cycle)
    have hresumed := installed_resumed (q := .acquire .cycle) (fun _ => ⟨rfl, rfl⟩) w made
    rw [verdict_taking, verdict_taking, hlevel.verdictOn, (hresumed _).1, (hresumed _).2, List.append_assoc]
  rw [collect_eq, exists_ends_ask_iff]
  simp only [exists_ends_look_iff, hready, htaking]
  constructor
  · intro h
    obtain ⟨made, _, rfl, hfree, before, between, after, rfl, h⟩ := h
    exact ⟨hfree, made ++ before, between, after, by simp only [List.append_assoc], h⟩
  · intro h
    obtain ⟨hfree, before, between, after, rfl, h⟩ := h
    exact ⟨[], _, rfl, hfree, before, between, after, rfl, h⟩

theorem installed_append_one (w : World) (us : List Update) (u : Update) :
    (installed w (us ++ [u])).memory.snapshot = some u.snapshot ∧ (installed w (us ++ [u])).memory.total = u.total := by
  rw [installed_append]
  exact ⟨rfl, rfl⟩

/-- Beside any number of updates a cycle comes to what it would come to alone with the
    snapshot of those before its look at the snapshot and the total of these and of those
    before its look at the total, and the updates can be cut in any such way. With none
    between the looks, the two are what was installed at first or what one update did. -/
theorem collect_beside_installs (cfg : Settings) (node : Address) (w : World) (us : List Update) :
    (∀ z, (∃ v, Ends (fork (collect cfg node) (installs us)) w z v) ↔
      Ask.ready w.memory (.acquire .cycle) = true ∧
        ∃ before between after, us = before ++ between ++ after ∧
          z = .ok (verdict cfg node (taking w before between), .ok ())) ∧
    verdict cfg node (taking w [] []) = verdict cfg node w ∧
    ∀ before u, (taking w (before ++ [u]) []).memory.snapshot = some u.snapshot ∧
      (taking w (before ++ [u]) []).memory.total = u.total := by
  refine ⟨fun z => exists_ends_beside_iff, rfl, fun before u => ?_⟩
  obtain ⟨hs, ht⟩ := installed_append_one w before u
  refine ⟨hs, ?_⟩
  rw [← ht]
  simp only [taking, List.append_nil]

/-! ### One update between the looks -/

def watched : Address := Address.ofNat 0x4444444444444444444444444444444444444444

/-- The supply of 8 RPL doubles in an interval of a day, and all of that is for the nodes. -/
def watchedSnapshot (stake : Wei) : Snapshot where
  block := 100
  network := ⟨2 * 10 ^ 18, 8 * 10 ^ 18, 86400, 10 ^ 18, 0⟩
  nodes := [(watched, ⟨stake, stake, 0, 0, 0, 0, 0⟩)]
  minipools := []
  validators := []

/-- The node is the only one there is, with a stake of 1 RPL at first and then of 2. -/
def firstUpdate : Update := ⟨watchedSnapshot (10 ^ 18), some (10 ^ 18)⟩

def secondUpdate : Update := ⟨watchedSnapshot (2 * 10 ^ 18), some (2 * 10 ^ 18)⟩

def expected : Except Fault (Option Metrics) → Option Double
  | .ok (some m) => some m.expectedRplRewards
  | _ => none

/-- What the node is to expect, with a stake and a total. -/
theorem watched_verdict (stake total : Wei) :
    expected (verdict {} watched (quietWorld (watchedSnapshot stake) (some total))) =
      expected (do
        let b : Basis := ⟨watchedSnapshot stake, total, ⟨stake, stake, 0, 0, 0, 0, 0⟩, []⟩
        told b (← estimate b) ⟨0, 0⟩ quietLedger (.ok [])) := by
  have hb : basis? watched (quietWorld (watchedSnapshot stake) (some total)).memory =
      some ⟨watchedSnapshot stake, total, ⟨stake, stake, 0, 0, 0, 0, 0⟩, []⟩ := rfl
  rw [quietWorld_verdict, hb]
  simp only [conclude]
  rw [balancesAt_nil rfl]

/-- The node alone is to expect all 8 RPL by either update, but a cycle between whose looks
    the second one falls tells it 4. -/
theorem mixed_pair :
    (∃ x v, Ends (fork (collect {} watched) (installs [secondUpdate]))
        (quietWorld firstUpdate.snapshot firstUpdate.total) (.ok (x, .ok ())) v ∧
      x = verdict {} watched (quietWorld firstUpdate.snapshot secondUpdate.total) ∧ expected x = some 4) ∧
    ∀ u ∈ [firstUpdate, secondUpdate], expected (verdict {} watched (quietWorld u.snapshot u.total)) = some 8 := by
  constructor
  · have hends : ∃ v, Ends (fork (collect {} watched) (installs [secondUpdate]))
        (quietWorld firstUpdate.snapshot firstUpdate.total)
        (.ok (verdict {} watched (quietWorld firstUpdate.snapshot secondUpdate.total), .ok ())) v :=
      exists_ends_beside_iff.mpr ⟨rfl, [], [secondUpdate], [], rfl, rfl⟩
    obtain ⟨v, h⟩ := hends
    refine ⟨_, v, h, rfl, ?_⟩
    refine (watched_verdict (10 ^ 18) (2 * 10 ^ 18)).trans ?_
    decide +kernel
  · intro u hu
    rcases List.mem_cons.mp hu with rfl | hu
    · refine (watched_verdict (10 ^ 18) (10 ^ 18)).trans ?_
      decide +kernel
    · obtain rfl := List.mem_singleton.mp hu
      refine (watched_verdict (2 * 10 ^ 18) (2 * 10 ^ 18)).trans ?_
      decide +kernel

end NodeGauge.Cycle
