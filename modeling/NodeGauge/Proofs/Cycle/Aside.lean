/-
  NodeGauge.Proofs.Cycle.Aside — the parts of a cycle and what they can notice of each
  other. The rewards unit looks at the outside, the ledger and the address of the contract
  that pays the rewards, and changes the last two (`Settles`). The other parts ask for
  nothing of which it could notice anything (`Aside`), so worlds before and after them are
  one to it (`Same`). No part waits for a lock (`Free`). Under its lock a cycle is these
  parts one after the other (`body_eq`), and all it may leave running is a request to the
  beacon node (`left_running`).
-/

import NodeGauge.Cycle
import NodeGauge.Proofs.Beacon.Lookup
import NodeGauge.Proofs.Rewards.Reconcile

namespace NodeGauge.Cycle

open Job
open NodeGauge.Rewards (Seeks reconcile)

/-! ## What the rewards unit can notice -/

/-- What the rewards unit asks for. -/
def Settles : Ask → Prop
  | .commit .. => True
  | q => Seeks q

/-- What changes nothing that the rewards unit asks for, and waits for no lock. -/
def Aside : Ask → Prop
  | .commit .. | .keepRewardsPool _ | .acquire _ => False
  | _ => True

/-- Worlds that are one to the rewards unit. -/
structure Same (w v : World) : Prop where
  outside : v.outside = w.outside
  ledger : v.memory.ledger = w.memory.ledger
  pool : v.memory.rewardsPool = w.memory.rewardsPool

variable {w v u : World}

theorem Same.refl (w : World) : Same w w := ⟨rfl, rfl, rfl⟩

theorem Same.trans (h : Same w v) (h' : Same v u) : Same w u :=
  ⟨h'.outside.trans h.outside, h'.ledger.trans h.ledger, h'.pool.trans h.pool⟩

/-- Any ask leaves them one to it. -/
theorem Same.after (h : Same w v) (q : Ask) : Same (w.after q) (v.after q) := by
  obtain ⟨ho, hl, hp⟩ := h
  cases q with
  | commit infos block => exact ⟨ho, by simp only [World.after, Ask.effect, hl], hp⟩
  | keepRewardsPool a => exact ⟨ho, hl, rfl⟩
  | _ => exact ⟨ho, hl, hp⟩

theorem same_after (q : Ask) (hq : Aside q) : Same w (w.after q) := by
  cases q <;> first | exact ⟨rfl, rfl, rfl⟩ | exact hq.elim

theorem same_acquire (l : Lock) : Same w (w.after (.acquire l)) := ⟨rfl, rfl, rfl⟩

/-- What can be answered whatever locks are held. -/
def Free (q : Ask) : Prop := ∀ m, q.ready m = true

theorem free_of_settles (q : Ask) (h : Settles q) : Free q := by
  intro m
  cases q <;> first | rfl | exact h.elim

theorem free_of_aside (q : Ask) (h : Aside q) : Free q := by
  intro m
  cases q <;> first | rfl | exact h.elim

theorem apart : Apart Same Settles Aside where
  refl := Same.refl
  ready := fun q w _ hq _ _ => free_of_settles q hq w.memory
  reply := by
    intro q w v hq h
    obtain ⟨ho, hl, hp⟩ := h
    cases q with
    | call c => cases c <;> simp only [Ask.reply, ho]
    | file path => simp only [Ask.reply, ho]
    | ledger => exact hl.symm
    | commit infos block => simp only [Ask.reply, hl]
    | rewardsPool => exact hp.symm
    | keepRewardsPool a => rfl
    | _ => exact hq.elim
  after := fun q _ _ _ h => h.after q
  aside := fun q _ _ hq h => h.trans (same_after q hq)

theorem reaches_aside {α : Type} {j : Job α} (hj : j.Uses Aside) (h : Reaches j w v) : Same w v :=
  h.keeps (I := Same w) (fun q _ hq hv => hv.trans (same_after q hq)) hj (Same.refl w)

theorem ends_aside {α : Type} {j : Job α} {x : Except Fault α} (hj : j.Uses Aside) (h : Ends j w x v) : Same w v :=
  reaches_aside hj h.reaches

variable {cfg : Settings} {node : Address}

theorem reconcile_straight (cfg : Settings) (node : Text) : (reconcile cfg node).Straight Settles := by
  have hs : ∀ q, Seeks q → Settles q := fun q h => by
    cases q <;> first | exact h | exact h.elim
  rw [Rewards.reconcile_eq]
  refine straight_bind ((Rewards.gather_seeks cfg node).mono hs) fun f => ?_
  refine straight_bind (straight_send trivial) fun r => straight_bind (straight_ofExcept r) fun _ => ?_
  exact straight_bind (straight_ofExcept _) fun _ => straight_bind (straight_ofExcept _) fun _ => trivial

/-- In worlds that are one to it the unit comes to the same and leaves one world. -/
theorem reconcile_same (cfg : Settings) (node : Address) (h : Same w v) :
    (reconcile cfg node.text).answer v = (reconcile cfg node.text).answer w ∧
      Same ((reconcile cfg node.text).run w).2 ((reconcile cfg node.text).run v).2 := by
  obtain ⟨ha, hs⟩ := run_congr (R := Same)
    (fun q w v hq h => ⟨apart.reply q w v hq h, apart.after q w v hq h⟩) (reconcile_straight cfg node.text).uses h
  exact ⟨ha.symm, hs⟩

/-! ## What runs before, beside and after the unit -/

/-- What a cycle starts from, read off the memory. -/
def basis? (node : Address) (m : Memory) : Option Basis := do
  let snapshot ← m.snapshot
  let totalEffective ← m.total
  let details ← snapshot.nodes.get? node
  return ⟨snapshot, totalEffective, details, (snapshot.minipools.get? node).getD []⟩

/-- What a cycle looks at before all else. -/
def Peeks : Ask → Prop
  | .snapshot | .total => True
  | _ => False

theorem aside_of_peeks (q : Ask) (h : Peeks q) : Aside q := by
  cases q <;> trivial

/-- What a cycle starts from, with what it saw installed. -/
def pairing (node : Address) (snapshot : Option Snapshot) (total : Option Wei) : Option Basis :=
  basis? node { snapshot, total }

/-- What is behind a look at the snapshot: a look at the total, if there is a snapshot. -/
def lookOn (node : Address) : Option Snapshot → Job (Option Basis)
  | none => done none
  | some s => ask .total fun t => done (pairing node (some s) t)

theorem prepare_eq (node : Address) : prepare node = ask .snapshot (lookOn node) := by
  show ask Ask.snapshot _ = _
  congr 1
  funext s
  cases s with
  | none => rfl
  | some s =>
    show ask Ask.total _ = ask Ask.total _
    congr 1
    funext t
    cases t with
    | none => rfl
    | some t =>
      dsimp only [Job.bind]
      cases hd : s.nodes.get? node <;> simp [pairing, basis?, hd, pure]

theorem prepare_peeks (node : Address) : (prepare node).Straight Peeks := by
  rw [prepare_eq]
  refine ⟨trivial, fun s => ?_⟩
  cases s with
  | none => trivial
  | some s => exact ⟨trivial, fun _ => trivial⟩

theorem prepare_aside (node : Address) : (prepare node).Straight Aside := (prepare_peeks node).mono aside_of_peeks

theorem prepare_answer (node : Address) (w : World) : (prepare node).answer w = .ok (basis? node w.memory) := by
  have hbasis : basis? node w.memory = pairing node w.memory.snapshot w.memory.total := rfl
  rw [prepare_eq, hbasis]
  show ((lookOn node w.memory.snapshot).run (w.after .snapshot)).1 = _
  cases w.memory.snapshot <;> rfl

theorem ends_prepare {x : Except Fault (Option Basis)} (h : Ends (prepare node) w x v) :
    x = .ok (basis? node w.memory) ∧ Same w v := by
  have hx : (prepare node).answer w = x := congrArg Prod.fst (h.run_eq (prepare_aside node))
  exact ⟨hx.symm.trans (prepare_answer node w), ends_aside (prepare_aside node).uses h⟩

theorem head_aside (cfg : Settings) : (Beacon.head cfg).Uses Aside :=
  (Beacon.head_requests cfg).mono fun q hq => by cases q <;> trivial

/-- What the balances of the minipools ask for. -/
def Calls : Ask → Prop
  | .call _ => True
  | _ => False

theorem aside_of_calls (q : Ask) (h : Calls q) : Aside q := by
  cases q <;> trivial

theorem blockAt_calls (block : Int) : (Chain.Client.blockAt block).Whole Calls := by
  unfold Chain.Client.blockAt
  split
  · trivial
  · refine whole_bind (Rewards.latestBlock_straight trivial).whole fun n => ?_
    dsimp only
    split <;> trivial

theorem nodeShare_calls (address : Address) (total : Wei) (block : Int) :
    (Chain.Client.nodeShare address total block).Whole Calls := by
  unfold Chain.Client.nodeShare
  split
  · exact whole_bind (blockAt_calls block) fun tag => (Rewards.numberOf_straight trivial).whole
  · trivial

theorem balance_calls (s : Snapshot) (epoch block : Int) (m : Minipool) : (m.balance s epoch block).Whole Calls := by
  unfold Minipool.balance
  split
  · trivial
  · exact whole_bind (whole_ofExcept _) fun total => whole_bind (nodeShare_calls ..) fun share => trivial

theorem batch_calls (s : Snapshot) (epoch block : Int) (batch : List Minipool) :
    ∀ j ∈ batch.map (Minipool.balance s epoch block), j.Whole Calls := by
  intro j hj
  obtain ⟨m, -, rfl⟩ := List.mem_map.mp hj
  exact balance_calls s epoch block m

theorem balancesOf_calls (s : Snapshot) (epoch block : Int) (batches : List (List Minipool)) :
    (Minipool.balancesOf s epoch block batches).Whole Calls := by
  induction batches with
  | nil => trivial
  | cons batch rest ih =>
    exact whole_bind (whole_all (batch_calls s epoch block batch)) fun found =>
      whole_bind (whole_ofExcept _) fun _ => whole_bind ih fun _ => trivial

theorem balances_calls (size : Int) (s : Snapshot) (epoch block : Int) (minipools : List Minipool) :
    (Minipool.balances size s epoch block minipools).Whole Calls := by
  unfold Minipool.balances
  split
  · exact balancesOf_calls ..
  · trivial
  · trivial

/-- What a cycle asks for behind its units. -/
def Reports : Ask → Prop
  | .call _ | .note _ | .ledger => True
  | _ => False

theorem aside_of_reports (q : Ask) (h : Reports q) : Aside q := by
  cases q <;> trivial

theorem finish_reports (cfg : Settings) (b : Basis) (unclaimed : Rewards.Unclaimed) (head : Beacon.Head) :
    (finish cfg b unclaimed head).Whole Reports := by
  have hcalls : ∀ q, Calls q → Reports q := fun q h => by cases q <;> trivial
  unfold finish
  refine whole_bind (whole_ofExcept _) fun e => whole_bind (whole_attempt ((balances_calls ..).mono hcalls)) fun r => ?_
  cases r with
  | error f => exact whole_bind (whole_send trivial) fun _ => trivial
  | ok balances => exact whole_bind (whole_send trivial) fun l => whole_bind (whole_ofExcept _) fun _ => trivial

/-- The lookup of the head does not notice the rewards unit either. -/
theorem apart_head : Apart (fun w v => ∀ e, Beacon.Seen e w v) Beacon.Requests Settles where
  refl := fun w e => Beacon.Seen.refl e w
  ready := fun _ _ _ hq _ _ => hq.ready _
  reply := by
    intro q w v hq h
    cases q with
    | get e => simp only [Ask.reply, (h e).beacon, (h e).gets]
    | wait s => rfl
    | _ => exact hq.elim
  after := fun q _ _ _ h e => (h e).after q
  aside := by
    intro q w v hq h e
    refine (h e).trans (Beacon.seen_after ?_)
    cases q <;> first | rfl | exact hq.elim

/-- What a cycle makes of the outcomes of its two units. -/
def report (cfg : Settings) (b : Basis) : Except Fault Rewards.Unclaimed × Except Fault Beacon.Head → Job (Option Metrics)
  | (.ok unclaimed, .ok head) => finish cfg b unclaimed head
  | (.error f, _) | (.ok _, .error f) => do
    note (.cycleFailed f)
    return none

theorem report_reports (cfg : Settings) (b : Basis) (r : Except Fault Rewards.Unclaimed × Except Fault Beacon.Head) :
    (report cfg b r).Whole Reports := by
  obtain ⟨x, y⟩ := r
  cases x with
  | error f => exact whole_bind (whole_send trivial) fun _ => trivial
  | ok unclaimed =>
    cases y with
    | error f => exact whole_bind (whole_send trivial) fun _ => trivial
    | ok head => exact finish_reports cfg b unclaimed head

theorem report_aside (cfg : Settings) (b : Basis) (r : Except Fault Rewards.Unclaimed × Except Fault Beacon.Head) :
    (report cfg b r).Uses Aside :=
  (report_reports cfg b r).uses.mono aside_of_reports

/-- What a cycle does with what it starts from. -/
def proceed (cfg : Settings) (node : Address) : Option Basis → Job (Option Metrics)
  | none => done none
  | some b => (units cfg node).bind (report cfg b)

theorem body_eq (cfg : Settings) (node : Address) : body cfg node = (prepare node).bind (proceed cfg node) := by
  show (prepare node).bind _ = _
  congr 1
  funext o
  cases o with
  | none => rfl
  | some b =>
    show (units cfg node).bind _ = (units cfg node).bind (report cfg b)
    congr 1
    funext r
    obtain ⟨x, y⟩ := r
    cases x with
    | error f => rfl
    | ok unclaimed => cases y <;> rfl

section Footprint

variable {P : Ask → Prop} (hsettles : ∀ q, Settles q → P q) (hrequests : ∀ q, Beacon.Requests q → P q)
  (hreports : ∀ q, Reports q → P q)

include hsettles hrequests hreports

theorem proceed_uses (cfg : Settings) (node : Address) (o : Option Basis) : (proceed cfg node o).Uses P := by
  cases o with
  | none => trivial
  | some b =>
    have hunit := (reconcile_straight cfg node.text).uses.mono hsettles
    have hhead := (Beacon.head_requests cfg).mono hrequests
    exact uses_bind ⟨hunit, hhead, fun _ _ => trivial⟩ fun r => (report_reports cfg b r).uses.mono hreports

/-- All that a cycle asks for under its lock. -/
theorem body_uses (hpeeks : ∀ q, Peeks q → P q) (cfg : Settings) (node : Address) : (body cfg node).Uses P := by
  rw [body_eq]
  exact uses_bind ((prepare_peeks node).uses.mono hpeeks) (proceed_uses hsettles hrequests hreports cfg node)

end Footprint

/-! ## What a cycle leaves running -/

theorem collect_leaves (cfg : Settings) (node : Address) : (collect cfg node).Leaves Beacon.Requests := by
  refine leaves_withLock .cycle ?_
  rw [body_eq]
  refine leaves_bind (prepare_peeks node).whole.leaves fun o => ?_
  cases o with
  | none => trivial
  | some b =>
    have hunit := (reconcile_straight cfg node.text).whole.leaves (P := Beacon.Requests)
    exact leaves_bind ⟨hunit, Beacon.head_leaves cfg, fun _ _ => trivial⟩ fun r => (report_reports cfg b r).leaves

/-- A cycle may leave a request of the head's lookup running. However it and its tasks take
    turns, a step of a task changes no more of the world than which of its answers the beacon
    node gives next. -/
theorem left_running (cfg : Settings) (node : Address) {s : Running (Option Metrics)} (h : Ticks ⟨collect cfg node, [], w⟩ s)
    {t : Task} (ht : t ∈ s.tasks) {j : Job t.α} {v : World} {ts : List Task} (hstep : Step t.job s.world j v ts) :
    v.outside = s.world.outside ∧ v.memory = s.world.memory ∧ v.log = s.world.log ∧ v.calls = s.world.calls ∧
      v.reads = s.world.reads := by
  have hwhole := (h.leaves (collect_leaves cfg node) nofun).2 t ht
  obtain ⟨-, rfl | ⟨q, hq, rfl⟩⟩ := hstep.uses hwhole.uses
  · exact ⟨rfl, rfl, rfl, rfl, rfl⟩
  · cases q <;> first | exact hq.elim | simp [World.after, Ask.effect, Ask.line?, World.calls, World.reads]

end NodeGauge.Cycle
