/-
  NodeGauge.Proofs.Daemon.Rounds — the rounds that look for a new snapshot, one after the
  other. What goes on besides may change the world at any moment, but installs nothing and
  takes no interrupt back (`Move`). A round reads the snapshot's file once and does one
  thing with what it reads (`response`): it installs what can be understood and notes the
  rest. So behind every round the pair is there that came with the last content that could
  be understood (`Moves.sound`, `Place.behind`), no content ends the rounds, and a snapshot
  that is there stays there (`Moves.isSome`). All of it together: `rounds_keep_last`.
-/

import Mathlib.Logic.Relation
import NodeGauge.Daemon
import NodeGauge.Proofs.Cycle.Faults

namespace NodeGauge.Daemon

open Job
open Relation (ReflTransGen)

abbrev Content := Except FileFault Bytes

/-- The snapshot and the total of a content that can be read and understood. -/
def good? : Content → Option (Snapshot × Option Wei)
  | .ok bytes => (Json.ofBytes bytes >>= Snapshot.parse).toOption
  | .error _ => none

/-- What is installed once these contents were seen: what came with the last good one. -/
def kept (seen : List Content) : Option Snapshot × Option Wei :=
  match seen.reverse.findSome? good? with
  | some (snapshot, total) => (some snapshot, total)
  | none => (none, none)

theorem kept_append_bad {c : Content} (h : good? c = none) (seen : List Content) : kept (seen ++ [c]) = kept seen := by
  simp [kept, h]

theorem kept_append_good {c : Content} {snapshot : Snapshot} {total : Option Wei} (h : good? c = some (snapshot, total))
    (seen : List Content) : kept (seen ++ [c]) = (some snapshot, total) := by
  simp [kept, h]

/-! ## One round -/

variable (cfg : Settings)

def response : Content → Ask
  | .error .missing => .note (.snapshotMissing cfg.snapshotPath)
  | .error f => .note (.refreshFailed (.file f))
  | .ok bytes => match Json.ofBytes bytes >>= Snapshot.parse with
    | .ok (snapshot, total) => .install snapshot total
    | .error f => .note (.refreshFailed f)

def pausing : Job Bool := ask (.pause cfg.refreshInterval) fun _ => done true

/-- The rest of a round that is not interrupted. -/
def looking : Job Bool := ask (.file cfg.snapshotPath) fun c => ask (response cfg c) fun _ => pausing cfg

/-- What a refresh does with what it read. -/
def installing : Content → Job Bool
  | .error .missing => ask (.note (.snapshotMissing cfg.snapshotPath)) fun _ => done false
  | .error f => .fail (.file f)
  | .ok bytes => (ofExcept (Json.ofBytes bytes >>= Snapshot.parse)).bind fun p =>
      ask (.install p.1 p.2) fun _ => done true

theorem refresh_eq : Snapshot.refresh cfg.snapshotPath = ask (.file cfg.snapshotPath) (installing cfg) := by
  show ask (Ask.file cfg.snapshotPath) _ = ask (Ask.file cfg.snapshotPath) _
  congr 1
  funext c
  cases c with
  | error f => cases f <;> rfl
  | ok bytes =>
    show (ofExcept (Json.ofBytes bytes)).bind (fun j => (ofExcept (Snapshot.parse j)).bind _) = installing cfg (.ok bytes)
    dsimp only [installing]
    cases Json.ofBytes bytes with
    | error f => rfl
    | ok j =>
      show (ofExcept (Snapshot.parse j)).bind _ = (ofExcept (Snapshot.parse j)).bind _
      cases Snapshot.parse j <;> rfl

theorem round_eq : round cfg = ask .exiting fun exiting => if exiting then done false else looking cfg := by
  show ask Ask.exiting _ = ask Ask.exiting _
  congr 1
  funext exiting
  cases exiting with
  | true => rfl
  | false =>
    show (Snapshot.refresh cfg.snapshotPath).attempt.bind _ = looking cfg
    rw [refresh_eq]
    show ask (Ask.file cfg.snapshotPath) _ = ask (Ask.file cfg.snapshotPath) _
    congr 1
    funext c
    cases c with
    | error f => cases f <;> rfl
    | ok bytes =>
      dsimp only [installing, response]
      cases Json.ofBytes bytes >>= Snapshot.parse <;> rfl

/-! ## One round after the other -/

/-- The rounds at a moment: what each one that has ended saw of the snapshot's file, what
    this one has seen, what is left of it, and the world. -/
structure Rounds where
  past : List (List Content)
  now : List Content
  left : Job Bool
  world : World

namespace Rounds

def seen (s : Rounds) : List Content := s.past.flatten ++ s.now

def first (w : World) : Rounds := ⟨[], [], round cfg, w⟩

end Rounds

def glimpse (w : World) : Ask → List Content
  | .file path => if path = cfg.snapshotPath then [w.outside.files path] else []
  | _ => []

/-- The world may change between any two asks of a round. -/
inductive Move : Rounds → Rounds → Prop where
  | ask {past : List (List Content)} {now : List Content} {q : Ask} {k : q.Reply → Job Bool} {w : World}
    (h : q.ready w.memory = true) :
    Move ⟨past, now, .ask q k, w⟩ ⟨past, now ++ glimpse cfg w q, k (q.reply w), w.after q⟩
  | again {past : List (List Content)} {now : List Content} {w : World} :
    Move ⟨past, now, .done true, w⟩ ⟨past ++ [now], [], round cfg, w⟩
  /-- What goes on besides, and files that change. -/
  | besides {past : List (List Content)} {now : List Content} {left : Job Bool} {w v : World}
    (hs : v.memory.snapshot = w.memory.snapshot) (ht : v.memory.total = w.memory.total)
    (he : w.memory.exiting = true → v.memory.exiting = true) : Move ⟨past, now, left, w⟩ ⟨past, now, left, v⟩

abbrev Moves : Rounds → Rounds → Prop := ReflTransGen (Move cfg)

def standing (w : World) : Option Snapshot × Option Wei := (w.memory.snapshot, w.memory.total)

/-- Where a round can stand, with what it has seen and what is installed; `before` is what was
    seen before the round. -/
inductive Place (before : List Content) : List Content → Job Bool → World → Prop where
  | checking {w : World} (h : standing w = kept before) :
    Place before [] (.ask .exiting fun exiting => if exiting then .done false else looking cfg) w
  | looking {w : World} (h : standing w = kept before) :
    Place before [] (.ask (.file cfg.snapshotPath) fun c => .ask (response cfg c) fun _ => pausing cfg) w
  | responding {c : Content} {w : World} (h : standing w = kept before) :
    Place before [c] (.ask (response cfg c) fun _ => pausing cfg) w
  | pausing {c : Content} {w : World} (h : standing w = kept (before ++ [c])) :
    Place before [c] (.ask (.pause cfg.refreshInterval) fun _ => .done true) w
  | ended {c : Content} {w : World} (h : standing w = kept (before ++ [c])) : Place before [c] (.done true) w
  | stopped {w : World} (h : standing w = kept before) (he : w.memory.exiting = true) :
    Place before [] (.done false) w

variable {cfg} {before now : List Content} {w v : World} {s s' : Rounds}

/-- A good content is installed, and any other is noted. -/
theorem response_cases (c : Content) :
    (good? c = none ∧ ∃ n, response cfg c = .note n) ∨
      ∃ snapshot total, good? c = some (snapshot, total) ∧ response cfg c = .install snapshot total := by
  cases c with
  | error f => exact Or.inl ⟨rfl, by cases f <;> exact ⟨_, rfl⟩⟩
  | ok bytes =>
    simp only [good?, response]
    cases Json.ofBytes bytes >>= Snapshot.parse with
    | error f => exact Or.inl ⟨rfl, _, rfl⟩
    | ok p => exact Or.inr ⟨_, _, rfl, rfl⟩

/-- The response to a content puts in place what is then to be kept. -/
theorem standing_response (h : standing w = kept before) (c : Content) :
    standing (w.after (response cfg c)) = kept (before ++ [c]) := by
  rcases response_cases c with ⟨hbad, n, hr⟩ | ⟨snapshot, total, hgood, hr⟩
  · rw [hr, kept_append_bad hbad, ← h]
    rfl
  · rw [hr, kept_append_good hgood]
    rfl

theorem glimpse_response (c : Content) : glimpse cfg w (response cfg c) = [] := by
  rcases response_cases c with ⟨-, n, hr⟩ | ⟨_, _, -, hr⟩ <;> rw [hr] <;> rfl

theorem response_ready (c : Content) : (response cfg c).ready w.memory = true := by
  rcases response_cases c with ⟨-, n, hr⟩ | ⟨_, _, -, hr⟩ <;> rw [hr] <;> rfl

theorem response_exiting (c : Content) : (w.after (response cfg c)).memory.exiting = w.memory.exiting := by
  rcases response_cases c with ⟨-, n, hr⟩ | ⟨_, _, -, hr⟩ <;> rw [hr] <;> rfl

theorem Place.ask {q : Ask} {k : q.Reply → Job Bool} (h : Place cfg before now (.ask q k) w) :
    Place cfg before (now ++ glimpse cfg w q) (k (q.reply w)) (w.after q) := by
  cases h with
  | checking h =>
    cases he : w.memory.exiting with
    | true =>
      have hreply : Ask.reply w .exiting = true := he
      rw [hreply]
      exact .stopped h he
    | false =>
      have hreply : Ask.reply w .exiting = false := he
      rw [hreply]
      exact .looking h
  | looking h =>
    have hsees : glimpse cfg w (.file cfg.snapshotPath) = [w.outside.files cfg.snapshotPath] := if_pos rfl
    rw [hsees]
    exact .responding h
  | responding h =>
    rw [glimpse_response]
    exact .pausing (standing_response h _)
  | pausing h => exact .ended h

theorem Place.besides {left : Job Bool} (hs : standing v = standing w)
    (he : w.memory.exiting = true → v.memory.exiting = true) (h : Place cfg before now left w) :
    Place cfg before now left v := by
  cases h with
  | checking h => exact .checking (hs.trans h)
  | looking h => exact .looking (hs.trans h)
  | responding h => exact .responding (hs.trans h)
  | pausing h => exact .pausing (hs.trans h)
  | ended h => exact .ended (hs.trans h)
  | stopped h hexit => exact .stopped (hs.trans h) (he hexit)

/-- Until a round has done what it does with a content, all is as it was before the round. -/
theorem Place.installed {left : Job Bool} (h : Place cfg before now left w) :
    standing w = kept before ∨ standing w = kept (before ++ now) := by
  cases h with
  | checking h => exact Or.inl h
  | looking h => exact Or.inl h
  | responding h => exact Or.inl h
  | pausing h => exact Or.inr h
  | ended h => exact Or.inr h
  | stopped h _ => exact Or.inl h

/-- Behind a round. One that was interrupted has not looked. -/
theorem Place.behind {more : Bool} (h : Place cfg before now (.done more) w) :
    standing w = kept (before ++ now) ∧ now.length = if more then 1 else 0 := by
  cases h with
  | ended h => exact ⟨h, rfl⟩
  | stopped h _ => exact ⟨by rw [List.append_nil]; exact h, rfl⟩

/-- A round never fails and never waits, and it stops for an interrupt only. -/
theorem Place.onward {left : Job Bool} (h : Place cfg before now left w) :
    (∃ q k, left = .ask q k ∧ q.ready w.memory = true) ∨ left = .done true ∨
      left = .done false ∧ w.memory.exiting = true := by
  cases h with
  | checking _ => exact Or.inl ⟨_, _, rfl, rfl⟩
  | looking _ => exact Or.inl ⟨_, _, rfl, rfl⟩
  | responding _ => exact Or.inl ⟨_, _, rfl, response_ready _⟩
  | pausing _ => exact Or.inl ⟨_, _, rfl, rfl⟩
  | ended _ => exact Or.inr (Or.inl rfl)
  | stopped _ he => exact Or.inr (Or.inr ⟨rfl, he⟩)

/-- The round stands where one can, and each round before it saw the file once. -/
structure Sound (cfg : Settings) (s : Rounds) : Prop where
  place : Place cfg s.past.flatten s.now s.left s.world
  once : ∀ seen ∈ s.past, seen.length = 1

theorem first_sound (h : standing w = (none, none)) : Sound cfg (.first cfg w) := by
  refine ⟨?_, fun seen hseen => (List.not_mem_nil hseen).elim⟩
  simp only [Rounds.first, round_eq]
  exact .checking h

theorem Move.sound (hm : Move cfg s s') (h : Sound cfg s) : Sound cfg s' := by
  obtain ⟨hplace, honce⟩ := h
  cases hm with
  | ask _ => exact ⟨hplace.ask, honce⟩
  | again =>
    cases hplace with
    | @ended c w h =>
      constructor
      · simp only [round_eq, List.flatten_append, List.flatten_cons, List.flatten_nil, List.append_nil]
        exact .checking h
      · intro seen hseen
        rcases List.mem_append.mp hseen with hseen | hseen
        · exact honce seen hseen
        · rw [List.mem_singleton.mp hseen]
          rfl
  | besides hs ht he => exact ⟨hplace.besides (by simp only [standing, hs, ht]) he, honce⟩

theorem Moves.sound (hm : Moves cfg s s') (h : Sound cfg s) : Sound cfg s' := by
  induction hm with
  | refl => exact h
  | tail _ hm ih => exact hm.sound ih

/-! ## Health -/

def up : Service.Response := ⟨"text/plain; charset=utf-8", "exporter 1"⟩

theorem health_up_iff : Service.health.answer w = .ok up ↔ w.memory.snapshot.isSome = true := by
  show Except.ok _ = Except.ok up ↔ _
  cases hs : w.memory.snapshot with
  | none =>
    have hne : (⟨"text/plain; charset=utf-8", "exporter 0"⟩ : Service.Response) ≠ up := by decide
    simpa [hs, Ask.reply] using hne
  | some snapshot => simp [hs, Ask.reply, up]

/-- No move takes a snapshot away. -/
theorem Move.isSome (hm : Move cfg s s') (h : s.world.memory.snapshot.isSome = true) :
    s'.world.memory.snapshot.isSome = true := by
  cases hm with
  | @ask past now q k w _ => cases q <;> first | exact h | rfl
  | again => exact h
  | besides hs _ _ => exact hs ▸ h

theorem Moves.isSome (hm : Moves cfg s s') (h : s.world.memory.snapshot.isSome = true) :
    s'.world.memory.snapshot.isSome = true := by
  induction hm with
  | refl => exact h
  | tail _ hm ih => exact hm.isSome ih

/-! ## The rounds -/

/-- Rounds from a memory without a snapshot, whatever the file holds at each look and whatever
    goes on besides. Each round that has ended saw the file once. Behind a round the pair is
    installed that came with the last good content, and nothing if there was none; on the way
    it is that or what was there before the round. No content ends the rounds, an interrupt
    alone does. Once the exporter has said that a snapshot is there, it always will. -/
theorem rounds_keep_last (hempty : standing w = (none, none)) (hm : Moves cfg (.first cfg w) s) :
    (∀ seen ∈ s.past, seen.length = 1) ∧
    (∀ more, s.left = .done more → standing s.world = kept s.seen ∧ s.now.length = if more then 1 else 0) ∧
    (standing s.world = kept s.past.flatten ∨ standing s.world = kept s.seen) ∧
    ((∃ q k, s.left = .ask q k ∧ q.ready s.world.memory = true) ∨ s.left = .done true ∨
      s.left = .done false ∧ s.world.memory.exiting = true) ∧
    (Service.health.answer s.world = .ok up → ∀ s', Moves cfg s s' → Service.health.answer s'.world = .ok up) := by
  obtain ⟨hplace, honce⟩ := hm.sound (first_sound hempty)
  refine ⟨honce, fun more hdone => ?_, hplace.installed, hplace.onward, fun hup s' hm' => ?_⟩
  · rw [hdone] at hplace
    exact hplace.behind
  · rw [health_up_iff] at hup ⊢
    exact hm'.isSome hup

/-- Without an interrupt a round can see any content. -/
theorem exists_round (cfg : Settings) (past : List (List Content)) (he : w.memory.exiting = false) (c : Content) :
    ∃ v, Moves cfg ⟨past, [], round cfg, w⟩ ⟨past, [c], .done true, v⟩ ∧ v.memory.exiting = false := by
  let holding : World := { w with outside := { w.outside with files := fun _ => c } }
  have hfile : Moves cfg ⟨past, [], round cfg, w⟩ ⟨past, [], round cfg, holding⟩ := .single (.besides rfl rfl id)
  have hcheck : Ask.reply holding .exiting = false := he
  have hsees : glimpse cfg (holding.after .exiting) (.file cfg.snapshotPath) = [c] := if_pos rfl
  rw [round_eq] at hfile ⊢
  have hchecked := hfile.tail (.ask rfl)
  rw [hcheck] at hchecked
  have hlooked := hchecked.tail (.ask rfl)
  rw [hsees] at hlooked
  have hresponded := hlooked.tail (.ask (response_ready c))
  rw [glimpse_response] at hresponded
  exact ⟨_, hresponded.tail (.ask rfl), (response_exiting c).trans he⟩

/-- So rounds can see any contents in turn. -/
theorem exists_rounds (cfg : Settings) (past : List (List Content)) (he : w.memory.exiting = false)
    (cs : List Content) (c : Content) :
    ∃ v, Moves cfg ⟨past, [], round cfg, w⟩ ⟨past ++ cs.map ([·]), [c], .done true, v⟩ := by
  induction cs generalizing past w with
  | nil =>
    obtain ⟨v, hm, -⟩ := exists_round cfg past he c
    rw [List.map_nil, List.append_nil]
    exact ⟨v, hm⟩
  | cons d cs ih =>
    obtain ⟨v, hm, hv⟩ := exists_round cfg past he d
    obtain ⟨v', hm'⟩ := ih (past ++ [[d]]) hv
    rw [List.append_assoc] at hm'
    exact ⟨v', (hm.tail .again).trans hm'⟩

def bareWorld : World where
  outside := {
    chain := { latestBlock := .ok 100, read := fun _ _ _ => .ok [] }
    beacon := Beacon.fineBeacon
    files := fun _ => .error .missing }

/-- No file, then a good one, then one that cannot be understood: the good one stays, and
    the exporter says so ever after. -/
theorem rounds_keep_last_rejected :
    ∃ s, Moves {} (.first {} bareWorld) s ∧ s.seen = [.error .missing, .ok Cycle.owingFile.toUtf8, .ok []] ∧
      standing s.world = (some Cycle.owingSnapshot, some 0) ∧
      ∀ s', Moves {} s s' → Service.health.answer s'.world = .ok up := by
  have hempty : standing bareWorld = (none, none) := rfl
  obtain ⟨v, hm⟩ := exists_rounds {} [] (w := bareWorld) rfl [.error .missing, .ok Cycle.owingFile.toUtf8] (.ok [])
  obtain ⟨-, hends, -, -, hhealth⟩ := rounds_keep_last hempty hm
  have hgood : good? (.ok Cycle.owingFile.toUtf8) = some (Cycle.owingSnapshot, some 0) := by
    simp only [good?, Cycle.owingFile_parse]
    rfl
  have hbad : good? (.ok []) = none := by decide +kernel
  have hstanding : standing v = (some Cycle.owingSnapshot, some 0) :=
    (hends true rfl).1.trans ((kept_append_bad hbad _).trans (kept_append_good hgood [.error .missing]))
  have hthere : v.memory.snapshot = some Cycle.owingSnapshot := congrArg Prod.fst hstanding
  exact ⟨_, hm, rfl, hstanding, hhealth (health_up_iff.mpr (by rw [hthere]; rfl))⟩

end NodeGauge.Daemon
