/-
  NodeGauge.Proofs.Cycle.Report — what a cycle says. Of its units only the rewards say
  something, the line of the ledger when it has folded intervals in, and the balances say
  nothing. So all else it says is the one line about what failed first (`complaint`): the
  rewards, else the beacon head, else a balance. It emits when there is no such line
  (`ends_report_note`).
  No node's share is asked for before both units have succeeded, and a cycle that lacks
  what it starts from asks for nothing outside (`Untouched`).

  `collect_outcome` is the whole case analysis, for any endings of units and balances at
  once.
-/

import NodeGauge.Proofs.Cycle.Siblings
import NodeGauge.Proofs.Minipool.Batches

namespace NodeGauge

/-! ## What an ask adds -/

namespace World

variable (w : World) (q : Ask)

theorem notes_after : (w.after q).notes = w.notes ++ (q.line? w.memory).toList := by
  simp only [notes, after, List.reverse_append]
  cases q.line? w.memory <;> rfl

theorem calls_after : (w.after q).calls = w.calls ++ (match q with | .call c => [c] | _ => []) := by
  simp only [calls, after, List.reverse_cons, List.filterMap_append]
  cases q <;> rfl

theorem reads_after : (w.after q).reads = w.reads ++ (match q with | .file path => [path] | _ => []) := by
  simp only [reads, after, List.reverse_cons, List.filterMap_append]
  cases q <;> rfl

end World

namespace Cycle

open Job
open NodeGauge.Rewards (reconcile AsksShare)

variable {w v u : World} {cfg : Settings} {node : Address}

instance (data : Bytes) : Decidable (AsksShare data) := inferInstanceAs (Decidable (_ = _))

def isShareCall : Chain.Call → Bool
  | .read _ data _ => decide (AsksShare data)
  | .latestBlock => false

/-- The calls for a node's share. -/
def shareCalls (w : World) : List Chain.Call := w.calls.filter isShareCall

/-- Nothing was asked of the outside and nothing was said. -/
structure Untouched (w v : World) : Prop where
  calls : v.calls = w.calls
  gets : ∀ e, v.gets e = w.gets e
  reads : v.reads = w.reads
  notes : v.notes = w.notes
  ledger : v.memory.ledger = w.memory.ledger

theorem Untouched.trans (h : Untouched w v) (h' : Untouched v u) : Untouched w u :=
  ⟨h'.calls.trans h.calls, fun e => (h'.gets e).trans (h.gets e), h'.reads.trans h.reads, h'.notes.trans h.notes,
    h'.ledger.trans h.ledger⟩

theorem Untouched.shares (h : Untouched w v) : shareCalls v = shareCalls w := congrArg (List.filter isShareCall) h.calls

/-! ## Asks that say nothing -/

/-- Looks at the memory, and locks. -/
def Inward : Ask → Prop
  | .snapshot | .total | .acquire _ | .release _ => True
  | _ => False

theorem inward_of_peeks (q : Ask) (h : Peeks q) : Inward q := by
  cases q <;> trivial

theorem untouched_after {q : Ask} (hq : Inward q) : Untouched w (w.after q) := by
  cases q <;> first
    | exact hq.elim
    | exact ⟨by simp [World.calls_after], fun e => Beacon.gets_after .., by simp [World.reads_after],
        by simp [World.notes_after, Ask.line?], rfl⟩

theorem ends_inward {α : Type} {j : Job α} {x : Except Fault α} (hj : j.Uses Inward) (h : Ends j w x v) :
    Untouched w v :=
  h.keeps (I := Untouched w) (fun _ _ hq hv => hv.trans (untouched_after hq)) hj ⟨rfl, fun _ => rfl, rfl, rfl, rfl⟩

/-- What the units ask for. -/
def Works (q : Ask) : Prop := Settles q ∨ Beacon.Requests q

theorem shares_after {q : Ask} (hq : Works q) : shareCalls (w.after q) = shareCalls w := by
  unfold shareCalls
  rw [World.calls_after]
  cases q with
  | call c =>
    cases c with
    | latestBlock => simp [isShareCall]
    | read contract data block =>
      rcases hq with hq | hq
      · have hdata : ¬ AsksShare data := hq
        simp [isShareCall, hdata]
      · exact hq.elim
  | _ => simp

theorem units_works (cfg : Settings) (node : Address) : (units cfg node).Uses Works :=
  ⟨(reconcile_straight cfg node.text).uses.mono fun _ => Or.inl, (Beacon.head_requests cfg).mono fun _ => Or.inr,
    fun _ _ => trivial⟩

theorem ends_units_shares {x : Except Fault (Except Fault Rewards.Unclaimed × Except Fault Beacon.Head)}
    (h : Ends (units cfg node) w x v) : shareCalls v = shareCalls w :=
  h.keeps (I := fun v => shareCalls v = shareCalls w) (fun _ _ hq hv => (shares_after hq).trans hv)
    (units_works cfg node) rfl

/-! ## The line of the ledger -/

/-- Worlds that are one to the rewards unit, and in which the same was said. -/
structure Heard (w v : World) : Prop where
  same : Same w v
  notes : v.notes = w.notes

theorem Heard.after (h : Heard w v) (q : Ask) : Heard (w.after q) (v.after q) := by
  refine ⟨h.same.after q, ?_⟩
  have hline : q.line? v.memory = q.line? w.memory := by
    cases q <;> simp only [Ask.line?, h.same.ledger]
  rw [World.notes_after, World.notes_after, hline, h.notes]

/-- The lookup of the head says nothing that the unit could be thought to say. -/
theorem apart_heard : Apart Heard Settles Beacon.Requests where
  refl := fun w => ⟨Same.refl w, rfl⟩
  ready := fun q w v hq h => apart.ready q w v hq h.same
  reply := fun q w v hq h => apart.reply q w v hq h.same
  after := fun q _ _ _ h => h.after q
  aside := by
    intro q w v hq h
    have hnone : q.line? v.memory = none := by cases q <;> first | rfl | exact hq.elim
    have hsame : Same v (v.after q) := same_after q (by cases q <;> trivial)
    exact ⟨h.same.trans hsame, by rw [World.notes_after, hnone, ← h.notes]; exact List.append_nil _⟩

/-- What the rewards unit says alone. -/
def unitNotes (cfg : Settings) (node : Address) (w : World) : List Note := ((reconcile cfg node.text).run w).2.notes

theorem Heard.unitNotes (h : Heard w v) : unitNotes cfg node v = unitNotes cfg node w :=
  (run_congr (fun q w v hq h => ⟨apart_heard.reply q w v hq h, apart_heard.after q w v hq h⟩)
    (reconcile_straight cfg node.text).uses h).2.notes

/-- The units together say what the rewards unit says alone. -/
theorem ends_units_notes {x : Except Fault (Except Fault Rewards.Unclaimed × Except Fault Beacon.Head)}
    (h : Ends (units cfg node) w x v) : v.notes = unitNotes cfg node w := by
  have hunit := reconcile_straight cfg node.text
  obtain ⟨_, _, u, _, -, hu, hv, -⟩ := Ends.of_fork apart_heard apart_head hunit.uses (Beacon.head_requests cfg) h
  rw [hv.notes, unitNotes, hu.run_eq hunit]

/-- The unit says nothing while it finds out, and then the line of its commit if that has one. -/
theorem unitNotes_eq (cfg : Settings) (node : Address) (w : World) :
    unitNotes cfg node w = w.notes ++ (match (Rewards.gather cfg node.text).answer w with
      | .ok f => w.memory.ledger.line? f.infos f.block
      | .error _ => none).toList := by
  have hgather := Rewards.gather_seeks cfg node.text
  have hnotes : ((Rewards.gather cfg node.text).run w).2.notes = w.notes :=
    run_keeps (I := fun v => v.notes = w.notes)
      (fun q v hq hv => by
        rw [World.notes_after, ← hv]
        cases q <;> first | exact List.append_nil _ | exact hq.elim) hgather.uses rfl
  have hledger := (Rewards.run_alike (w := w) hgather).2
  unfold unitNotes answer
  rw [Rewards.reconcile_eq]
  show (((Rewards.gather cfg node.text).bind Rewards.settle).run w).2.notes = _
  rw [run_bind]
  generalize (Rewards.gather cfg node.text).run w = r at hnotes hledger ⊢
  obtain ⟨x, u⟩ := r
  cases x with
  | error f => exact hnotes.trans (List.append_nil _).symm
  | ok f =>
    simp only at hnotes hledger
    simp only [Rewards.run_settle, World.notes_after, Ask.line?, hnotes, hledger]

/-- That is one line at most, and no error. -/
theorem unitNotes_info (cfg : Settings) (node : Address) (w : World) :
    ∃ said : Option Note, unitNotes cfg node w = w.notes ++ said.toList ∧ ∀ n ∈ said, n.level = .info := by
  refine ⟨_, unitNotes_eq cfg node w, fun n hn => ?_⟩
  cases hg : (Rewards.gather cfg node.text).answer w with
  | error f =>
    rw [hg] at hn
    cases hn
  | ok f =>
    rw [hg] at hn
    exact Rewards.line?_level hn

theorem ends_calls_notes {α : Type} {j : Job α} {x : Except Fault α} (hj : j.Uses Calls) (h : Ends j w x v) :
    v.notes = w.notes := by
  refine h.keeps (I := fun v => v.notes = w.notes) (fun q v hq hv => ?_) hj rfl
  rw [World.notes_after, ← hv]
  cases q <;> first | exact List.append_nil _ | exact hq.elim

/-! ## The line of a cycle -/

/-- What a cycle says of the balances. -/
def shortfall : Except Fault (List BalanceDetails) → Option Note
  | .error f => some (.balancesFailed f)
  | .ok _ => none

/-- What a cycle says once its units have come to these. -/
def complaint (cfg : Settings) (b : Basis) (w : World) :
    Except Fault Rewards.Unclaimed × Except Fault Beacon.Head → Option Note
  | (.error f, _) | (.ok _, .error f) => some (.cycleFailed f)
  | (.ok _, .ok head) => shortfall (balancesAt cfg b head.epoch w)

theorem complaint_congr (h : v.outside = w.outside) (b : Basis)
    (r : Except Fault Rewards.Unclaimed × Except Fault Beacon.Head) : complaint cfg b v r = complaint cfg b w r := by
  obtain ⟨x, y⟩ := r
  cases x with
  | error f => rfl
  | ok unclaimed =>
    cases y with
    | error f => rfl
    | ok head => simp only [complaint, balancesAt_congr h]

/-- Behind these lines the job gives nothing and says one more, or it emits and says nothing. -/
def Says (before : List Note) (v : World) (o : Option Metrics) (line : Option Note) : Prop :=
  v.notes = before ++ line.toList ∧ (o.isSome ↔ line = none)

theorem ends_note {n : Note} {o : Option Metrics}
    (h : Ends (ask (.note n) fun _ => done none) w (.ok o) v) : v = w.after (.note n) ∧ Says w.notes v o (some n) := by
  obtain ⟨ho, rfl⟩ := ends_done.mp (ends_ask.mp h).2
  cases ho
  exact ⟨rfl, World.notes_after .., by simp⟩

theorem ends_tell_note {b : Basis} {e : Estimates} {unclaimed : Rewards.Unclaimed}
    {r : Except Fault (List BalanceDetails)} {o : Option Metrics} (h : Ends (tell b e unclaimed r) w (.ok o) v) :
    Says w.notes v o (shortfall r) := by
  cases r with
  | error f => exact (ends_note h).2
  | ok balances =>
    obtain ⟨l, u, hl, h⟩ := ends_bind_ok.mp h
    obtain ⟨m, u', hm, h⟩ := ends_bind_ok.mp h
    obtain ⟨-, rfl⟩ := ends_done.mp (ends_ask.mp hl).2
    obtain ⟨-, rfl⟩ := ends_ofExcept.mp hm
    obtain ⟨ho, rfl⟩ := ends_done.mp h
    cases ho
    exact ⟨World.notes_after .., by simp [shortfall]⟩

theorem ends_report_note {b : Basis} {r : Except Fault Rewards.Unclaimed × Except Fault Beacon.Head}
    {o : Option Metrics} (h : Ends (report cfg b r) w (.ok o) v) : Says w.notes v o (complaint cfg b w r) := by
  obtain ⟨x, y⟩ := r
  cases x with
  | error f => exact (ends_note h).2
  | ok unclaimed =>
    cases y with
    | error f => exact (ends_note h).2
    | ok head =>
      have hcalls := balances_calls cfg.batchSize b.snapshot head.epoch b.snapshot.block b.minipools
      obtain ⟨e, w₁, he, hrest⟩ := ends_bind_ok.mp h
      obtain ⟨-, rfl⟩ := ends_ofExcept.mp he
      obtain ⟨r, w₂, hr, htell⟩ := ends_attempt_bind.mp hrest
      have hbalances : r = balancesAt cfg b head.epoch w₁ := hr.answer_eq (apart_calls Calls) hcalls
      obtain ⟨hnotes, ho⟩ := ends_tell_note htell
      rw [ends_calls_notes hcalls.uses hr] at hnotes
      rw [hbalances] at hnotes ho
      exact ⟨hnotes, ho⟩

/-- Behind a unit that failed no share is asked for. -/
theorem ends_report_shares {b : Basis} {r : Except Fault Rewards.Unclaimed × Except Fault Beacon.Head}
    {o : Option Metrics} (hfailed : ¬ ((∃ unclaimed, r.1 = .ok unclaimed) ∧ ∃ head, r.2 = .ok head))
    (h : Ends (report cfg b r) w (.ok o) v) : shareCalls v = shareCalls w := by
  have hnote : ∀ n, shareCalls (w.after (.note n)) = shareCalls w := fun n => by
    simp [shareCalls, World.calls_after]
  obtain ⟨x, y⟩ := r
  cases x with
  | error f => rw [(ends_note h).1, hnote]
  | ok unclaimed =>
    cases y with
    | error f => rw [(ends_note h).1, hnote]
    | ok head => exact absurd ⟨⟨unclaimed, rfl⟩, head, rfl⟩ hfailed

/-! ## The cycle -/

/-- Something that a cycle starts from is not there. -/
def Lacking (node : Address) (m : Memory) : Prop :=
  m.snapshot = none ∨ m.total = none ∨ ∃ s, m.snapshot = some s ∧ s.nodes.get? node = none

theorem basis?_eq_none_iff {m : Memory} : basis? node m = none ↔ Lacking node m := by
  unfold basis? Lacking
  cases m.snapshot with
  | none => simp
  | some s =>
    cases m.total with
    | none => simp
    | some t => cases hd : s.nodes.get? node <;> simp [hd]

/-- Both units and every balance succeed. The balances are resolved in batches of a size. -/
def Succeeds (cfg : Settings) (node : Address) (b : Basis) (w : World) : Prop :=
  (∃ unclaimed, (reconcile cfg node.text).answer w = .ok unclaimed) ∧
    ∃ head, (Beacon.head cfg).answer w = .ok head ∧ cfg.batchSize ≠ 0 ∧
      (0 < cfg.batchSize → ∀ m ∈ b.minipools, ∃ d, (m.balance b.snapshot head.epoch b.snapshot.block).answer w = .ok d)

/-- The line about the first failure and the fault it is about: that of the rewards, else one
    that the lookup of the beacon head ends with, else that of a balance or of the batches
    themselves. -/
inductive Blames (cfg : Settings) (node : Address) (b : Basis) (w : World) : Note → Fault → Prop where
  | rewards {f : Fault} (h : (reconcile cfg node.text).answer w = .error f) : Blames cfg node b w (.cycleFailed f) f
  | head {f : Fault} {unclaimed : Rewards.Unclaimed} (hu : (reconcile cfg node.text).answer w = .ok unclaimed)
    (h : ∃ u, Ends (Beacon.head cfg) w (.error f) u) : Blames cfg node b w (.cycleFailed f) f
  | balance {f : Fault} {unclaimed : Rewards.Unclaimed} {head : Beacon.Head} {m : Minipool}
    (hu : (reconcile cfg node.text).answer w = .ok unclaimed) (hh : (Beacon.head cfg).answer w = .ok head)
    (hm : m ∈ b.minipools) (h : (m.balance b.snapshot head.epoch b.snapshot.block).answer w = .error f) :
    Blames cfg node b w (.balancesFailed f) f
  | batches {unclaimed : Rewards.Unclaimed} {head : Beacon.Head}
    (hu : (reconcile cfg node.text).answer w = .ok unclaimed) (hh : (Beacon.head cfg).answer w = .ok head)
    (h : cfg.batchSize = 0) :
    Blames cfg node b w (.balancesFailed (.badSetting "MINIPOOL_BALANCES_BATCH_SIZE"))
      (.badSetting "MINIPOOL_BALANCES_BATCH_SIZE")

variable {b : Basis}

theorem Blames.level {line : Note} {f : Fault} (h : Blames cfg node b w line f) : line.level = .error := by
  cases h <;> rfl

/-- The text of the line ends with that of the fault. -/
theorem Blames.text {line : Note} {f : Fault} (h : Blames cfg node b w line f) :
    ∃ start, ∀ name, line.text name = start ++ f.text name := by
  cases h <;> exact ⟨_, fun _ => rfl⟩

/-- There is no line, whatever the lookup of the head came to, exactly where all succeeds. -/
theorem complaint_eq_none_iff {y : Except Fault Beacon.Head} (hy : Ends (Beacon.head cfg) w y u) :
    complaint cfg b w ((reconcile cfg node.text).answer w, y) = none ↔ Succeeds cfg node b w := by
  simp only [Succeeds, ← Beacon.ends_head_ok_iff cfg hy]
  cases (reconcile cfg node.text).answer w with
  | error f => simp [complaint]
  | ok unclaimed =>
    cases y with
    | error f => simp [complaint]
    | ok head =>
      simp only [complaint, Except.ok.injEq, exists_eq', true_and, exists_eq_left', ← Minipool.balances_ok_iff]
      show _ ↔ ∃ ds, balancesAt cfg b head.epoch w = .ok ds
      cases balancesAt cfg b head.epoch w <;> simp [shortfall]

theorem complaint_blames {y : Except Fault Beacon.Head} {line : Note} (hy : Ends (Beacon.head cfg) w y u)
    (h : complaint cfg b w ((reconcile cfg node.text).answer w, y) = some line) :
    ∃ f, Blames cfg node b w line f := by
  cases hu : (reconcile cfg node.text).answer w with
  | error f =>
    rw [hu] at h
    cases h
    exact ⟨f, .rewards hu⟩
  | ok unclaimed =>
    rw [hu] at h
    cases y with
    | error f =>
      cases h
      exact ⟨f, .head hu ⟨u, hy⟩⟩
    | ok head =>
      have hh : (Beacon.head cfg).answer w = .ok head := (Beacon.ends_head_ok_iff cfg hy).mp rfl
      simp only [complaint] at h
      cases hb : balancesAt cfg b head.epoch w with
      | ok ds =>
        rw [hb] at h
        cases h
      | error f =>
        rw [hb] at h
        cases h
        rcases Minipool.balances_error hb with ⟨hsize, rfl⟩ | ⟨m, hm, hf⟩
        · exact ⟨_, .batches hu hh hsize⟩
        · exact ⟨f, .balance hu hh hm hf⟩

/-- Behind what its units say, the line is that of its report. -/
theorem ends_proceed_note {o : Option Metrics} (h : Ends (proceed cfg node (some b)) w (.ok o) v) :
    ∃ y u, Ends (Beacon.head cfg) w y u ∧
      Says (unitNotes cfg node w) v o (complaint cfg b w ((reconcile cfg node.text).answer w, y)) ∧
      (¬ ((∃ unclaimed, (reconcile cfg node.text).answer w = .ok unclaimed) ∧ ∃ head, y = .ok head) →
        shareCalls v = shareCalls w) := by
  obtain ⟨r, w₁, hunits, h⟩ := ends_bind_ok.mp h
  obtain ⟨y, u, hr, hy, hs⟩ := ends_units hunits
  cases hr
  have hsays := ends_report_note h
  rw [complaint_congr (hs.outside.trans (run_outside _ w)), ends_units_notes hunits] at hsays
  exact ⟨y, u, hy, hsays, fun hfailed => (ends_report_shares hfailed h).trans (ends_units_shares hunits)⟩

/-- A cycle takes its lock, looks at what there is to start from, and goes on with that. -/
theorem ends_collect_parts {x : Except Fault (Option Metrics)} (h : Ends (collect cfg node) w x v) :
    ∃ w₁ v₁, Level w w₁ ∧ Untouched w w₁ ∧ Ends (proceed cfg node (basis? node w.memory)) w₁ x v₁ ∧
      Untouched v₁ v := by
  obtain ⟨-, v₁, hbody, rfl⟩ := ends_withLock.mp h
  rw [body_eq] at hbody
  rcases ends_bind.mp hbody with ⟨o, w₁, hp, hrest⟩ | ⟨f, -, hp⟩
  · have hlevel : Level (w.after (.acquire .cycle)) w₁ :=
      hp.keeps (I := Level _) (fun _ _ hq hv => hv.trans (level_peek hq)) (prepare_peeks node).uses (Level.refl _)
    have hinward : Untouched (w.after (.acquire .cycle)) w₁ :=
      ends_inward ((prepare_peeks node).uses.mono inward_of_peeks) hp
    have hacquire : Untouched w (w.after (.acquire .cycle)) := untouched_after trivial
    cases (ends_prepare hp).1
    exact ⟨w₁, v₁, (level_acquire .cycle).trans hlevel, hacquire.trans hinward, hrest, untouched_after trivial⟩
  · cases (ends_prepare hp).1

/-- A cycle that is not at fault. If it lacks something it starts from, it gives nothing, asks
    for nothing outside, says nothing and leaves the ledger. Else it emits when both units and
    every balance succeed, and says no more than its rewards unit alone, which is one line at
    most and no error. Else it gives nothing and says one line more, an error, about the
    rewards if they failed, else about the beacon head if that failed, else about a balance.
    Unless both units succeeded it has asked for no node's share. -/
theorem collect_outcome {r : Option Metrics} (h : Ends (collect cfg node) w (.ok r) v) :
    (Lacking node w.memory → r = none ∧ Untouched w v) ∧
    (¬ Lacking node w.memory → ∃ b, basis? node w.memory = some b ∧
      (r.isSome ↔ Succeeds cfg node b w) ∧
      (∃ said : Option Note, unitNotes cfg node w = w.notes ++ said.toList ∧ ∀ n ∈ said, n.level = .info) ∧
      (Succeeds cfg node b w → v.notes = unitNotes cfg node w) ∧
      (¬ Succeeds cfg node b w → r = none ∧ ∃ line f, v.notes = unitNotes cfg node w ++ [line] ∧
        line.level = .error ∧ Blames cfg node b w line f ∧ ∃ start, ∀ name, line.text name = start ++ f.text name) ∧
      (¬ ((∃ unclaimed, (reconcile cfg node.text).answer w = .ok unclaimed) ∧
          ∃ head, (Beacon.head cfg).answer w = .ok head) → shareCalls v = shareCalls w)) := by
  obtain ⟨w₁, v₁, hlevel, hbefore, hrest, hafter⟩ := ends_collect_parts h
  rw [← basis?_eq_none_iff]
  cases hb : basis? node w.memory with
  | none =>
    rw [hb] at hrest
    obtain ⟨hr, rfl⟩ := ends_done.mp hrest
    cases hr
    exact ⟨fun _ => ⟨rfl, hbefore.trans hafter⟩, fun hlacks => absurd rfl hlacks⟩
  | some b =>
    rw [hb] at hrest
    -- Behind the lock and the looks the units and balances come to what they come to here.
    have hunit : (reconcile cfg node.text).answer w₁ = (reconcile cfg node.text).answer w :=
      (reconcile_same cfg node hlevel.same).1
    obtain ⟨y, _, hy, ⟨hnotes, hr⟩, hshares⟩ := ends_proceed_note hrest
    obtain ⟨_, hy⟩ := hy.alike apart_head (Beacon.head_requests cfg) hlevel.seen
    have hheard : Heard w w₁ := ⟨hlevel.same, hbefore.notes⟩
    rw [hunit, complaint_congr hlevel.same.outside] at hnotes hr
    simp only [hunit, Beacon.ends_head_ok_iff cfg hy] at hshares
    rw [← hafter.notes, hheard.unitNotes] at hnotes
    rw [complaint_eq_none_iff hy] at hr
    refine ⟨fun hlacks => by simp at hlacks, fun _ => ⟨b, rfl, hr, unitNotes_info cfg node w, fun hok => ?_,
      fun hfailed => ?_, fun hfailed => ?_⟩⟩
    · rw [(complaint_eq_none_iff hy).mpr hok] at hnotes
      simpa using hnotes
    · cases hline : complaint cfg b w ((reconcile cfg node.text).answer w, y) with
      | none => exact absurd ((complaint_eq_none_iff hy).mp hline) hfailed
      | some line =>
        obtain ⟨f, hblames⟩ := complaint_blames hy hline
        rw [hline] at hnotes
        refine ⟨?_, line, f, hnotes, hblames.level, hblames, hblames.text⟩
        cases r with
        | none => rfl
        | some m => exact absurd (hr.mp rfl) hfailed
    · exact (hafter.shares.trans (hshares hfailed)).trans hbefore.shares

/-- The interval that was paid is folded in. -/
theorem paidWorld_notes (beacon : Beacon.Endpoint → Nat → Beacon.Response) (pool : Option Address) :
    unitNotes {} payee (paidWorld beacon pool .empty) = [.folded [0] 3 2] := by
  obtain ⟨hunit, hledger⟩ := paidWorld_unit beacon pool (Or.inl rfl)
  rcases Rewards.run_reconcile {} payee.text (paidWorld beacon pool .empty) with ⟨f, -, hf, -⟩ | ⟨f, hg, hout, hl⟩
  · cases hunit.symm.trans hf
  · have hcommit : Rewards.Ledger.empty.commit f.infos f.block = (paidLedger, .ok ()) :=
      Prod.ext (hl.symm.trans hledger) (Rewards.outcome_ok_iff.mp (hout.symm.trans hunit)).1
    obtain ⟨_, _, -, -, hplus⟩ := Rewards.commit_ok_iff.mp hcommit
    have hfresh : Rewards.indices (Rewards.firsts Rewards.Ledger.empty.handled f.infos) = [0] :=
      (congrArg Rewards.Ledger.handled hplus).symm
    have hline := Rewards.line?_eq_some_iff.mpr ⟨_, hcommit, by rw [hfresh]; exact List.cons_ne_nil _ _, rfl⟩
    rw [hfresh, List.mergeSort_singleton] at hline
    have hempty : (paidWorld beacon pool .empty).memory.ledger = .empty := rfl
    rw [unitNotes_eq, hg, hempty]
    simp only [hline]
    rfl

/-- The rewards are there and the beacon node does not answer: nothing is emitted, and the one
    line behind that of the ledger is about the beacon node. -/
theorem collect_outcome_down :
    ∃ v, Ends (collect {} payee) (paidWorld downBeacon none .empty) (.ok none) v ∧
      v.notes = [.folded [0] 3 2, .cycleFailed (.outage .system)] ∧ shareCalls v = [] := by
  obtain ⟨v, h⟩ := (exists_ends_collect_iff (w := paidWorld downBeacon none .empty)).mpr ⟨rfl, paidWorld_down.symm⟩
  have hunit := (paidWorld_unit downBeacon none (Or.inl rfl)).1
  have hhead : (Beacon.head {}).answer (paidWorld downBeacon none .empty) = .error (.outage .system) :=
    downBeacon_head rfl
  have hthere : ¬ Lacking payee (paidWorld downBeacon none .empty).memory := by
    rw [← basis?_eq_none_iff, paidWorld_basis]
    exact Option.some_ne_none _
  obtain ⟨b, -, -, -, -, hfails, hshares⟩ := (collect_outcome h).2 hthere
  have hdown : ¬ ∃ head, (Beacon.head {}).answer (paidWorld downBeacon none .empty) = .ok head := by
    rw [hhead]
    simp
  obtain ⟨-, line, f, hnotes, -, hblames, -⟩ := hfails fun hok => hdown ⟨hok.2.choose, hok.2.choose_spec.1⟩
  refine ⟨v, h, ?_, hshares fun hok => hdown hok.2⟩
  rw [hnotes, paidWorld_notes]
  cases hblames with
  | rewards hu => cases hunit.symm.trans hu
  | head _ hh =>
    obtain ⟨_, hends⟩ := hh
    cases ends_downBeacon rfl hends
    rfl
  | balance _ hh _ _ => cases hhead.symm.trans hh
  | batches _ hh _ => cases hhead.symm.trans hh

end Cycle

end NodeGauge
