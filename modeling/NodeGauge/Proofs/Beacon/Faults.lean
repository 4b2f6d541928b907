/-
  NodeGauge.Proofs.Beacon.Faults — what can come of the head's lookup, whatever the beacon
  node answers. Of the responses to one lookup the first that will not pass counts, or the
  last (`settled`). Where both tell their data and the data its four integers, the head
  holds them; else the fault is one of the beacon node. There is one gap: where the first
  of the four that has no integer is infinite, the fault stays that of the number
  (`head_classified`).
-/

import Mathlib.Data.List.Basic
import NodeGauge.Proofs.Beacon.Lookup
import NodeGauge.Proofs.Json.Integers

namespace NodeGauge

/-- A fault in looking up the head: no answer, or one that cannot be understood. -/
def Fault.OfHead : Fault → Prop
  | headUnavailable _ | headMalformed _ => True
  | _ => False

/-- The value at the end of a path of members, null where the path ends early. -/
def Json.follow : List String → Json → Json
  | [], j => j
  | key :: path, j => match j.member key with
    | .ok v => v.follow path
    | .error _ => .null

namespace Beacon

open Job
open Json (InfiniteFirst)

/-! ## Integers at the end of a path -/

variable {path : List String} {j : Json} {n : Int} {f : Fault}

theorem integerAt_cons (key : String) (path : List String) (j : Json) :
    integerAt (key :: path) j = j.member key >>= integerAt path := by
  simp only [integerAt, List.foldlM_cons]
  cases j.member key <;> rfl

theorem integerAt_ok_iff : integerAt path j = .ok n ↔ (j.follow path).toInt = .ok n := by
  induction path generalizing j with
  | nil => rfl
  | cons key path ih =>
    rw [integerAt_cons]
    simp only [Json.follow]
    cases j.member key with
    | error f => constructor <;> intro h <;> cases h
    | ok v => exact ih

theorem integerAt_infinite_iff : integerAt path j = .error .infinite ↔ (j.follow path).IsInfinite := by
  induction path generalizing j with
  | nil => exact Json.toInt_infinite_iff
  | cons key path ih =>
    rw [integerAt_cons]
    simp only [Json.follow]
    cases h : j.member key with
    | error f =>
      refine ⟨fun hf => ?_, fun hi => ?_⟩
      · cases hf
        cases Json.isMalformed_of_member h
      · obtain ⟨x, hx, -⟩ := hi
        cases hx
    | ok v => exact ih

theorem isMalformed_of_integerAt (h : integerAt path j = .error f) : f.isMalformed = true ∨ f = .infinite := by
  induction path generalizing j with
  | nil => exact Json.isMalformed_of_toInt h
  | cons key path ih =>
    rw [integerAt_cons] at h
    rcases except_bind_error.mp h with h | ⟨v, -, h⟩
    · exact Or.inl (Json.isMalformed_of_member h)
    · exact ih h

/-! ## The head in two documents -/

/-- The numbers of a head, where the two documents have them, in the order they are read. -/
def numbersIn (header checkpoints : Json) : List Json :=
  [header.follow ["header", "message", "slot"], checkpoints.follow ["finalized", "epoch"],
    checkpoints.follow ["current_justified", "epoch"], checkpoints.follow ["previous_justified", "epoch"]]

/-- The numbers of the two documents are the integers of the head, and its epoch is that of
    its slot. -/
def Tells (slotsPerEpoch : Nat) (header checkpoints : Json) (h : Head) : Prop :=
  (numbersIn header checkpoints).map Json.toInt =
      [.ok h.slot, .ok h.finalizedEpoch, .ok h.justifiedEpoch, .ok h.previousJustifiedEpoch] ∧
    h.epoch = h.slot.fdiv slotsPerEpoch

variable {slotsPerEpoch : Nat} {header checkpoints : Json} {h : Head}

theorem parse_ok_iff : Head.parse slotsPerEpoch header checkpoints = .ok h ↔ Tells slotsPerEpoch header checkpoints h := by
  simp only [Head.parse, except_bind_ok, integerAt_ok_iff, Tells, numbersIn, List.map_cons, List.map_nil,
    List.cons.injEq, and_true]
  constructor
  · rintro ⟨slot, hslot, finalized, hfinalized, justified, hjustified, previous, hprevious, hh⟩
    cases hh
    exact ⟨⟨hslot, hfinalized, hjustified, hprevious⟩, rfl⟩
  · rintro ⟨⟨hslot, hfinalized, hjustified, hprevious⟩, hepoch⟩
    refine ⟨_, hslot, _, hfinalized, _, hjustified, _, hprevious, ?_⟩
    rw [← hepoch]
    rfl

theorem parse_infinite_iff :
    Head.parse slotsPerEpoch header checkpoints = .error .infinite ↔ InfiniteFirst (numbersIn header checkpoints) := by
  have hpure : ∀ h : Head, (pure h : Except Fault Head) ≠ .error .infinite := fun h hh => nomatch hh
  simp only [Head.parse, except_bind_error, integerAt_infinite_iff, integerAt_ok_iff, hpure, numbersIn, InfiniteFirst,
    and_false, exists_false, or_false, exists_and_right]

theorem isMalformed_of_parse (h : Head.parse slotsPerEpoch header checkpoints = .error f) :
    f.isMalformed = true ∨ f = .infinite := by
  unfold Head.parse at h
  rcases except_bind_error.mp h with h | ⟨_, -, h⟩
  · exact isMalformed_of_integerAt h
  rcases except_bind_error.mp h with h | ⟨_, -, h⟩
  · exact isMalformed_of_integerAt h
  rcases except_bind_error.mp h with h | ⟨_, -, h⟩
  · exact isMalformed_of_integerAt h
  rcases except_bind_error.mp h with h | ⟨_, -, h⟩
  · exact isMalformed_of_integerAt h
  · cases h

/-! ## The response that counts -/

/-- Of the responses to a request that is repeated `left` times at most, the first that will
    not pass, or the last. -/
def settled (responses : Nat → Response) : (left : Nat) → Response
  | 0 => responses 0
  | left + 1 => if (responses 0).isTransient then settled (fun n => responses (n + 1)) left else responses 0

/-- The responses to the requests of a lookup that begins now. -/
def responsesFrom (w : World) (e : Endpoint) (n : Nat) : Response := w.outside.beacon e (w.gets e + n)

variable {w : World} {e : Endpoint} {r : Response} {responses : Nat → Response}

theorem responsesFrom_retry (w : World) (e : Endpoint) (s : Nat) :
    responsesFrom ((w.after (.get e)).after (.wait s)) e = fun n => responsesFrom w e (n + 1) := by
  funext n
  simp only [responsesFrom, gets_after, World.isGet, beq_self_eq_true]
  simp [World.after, Nat.add_assoc, Nat.add_comm 1 n]

theorem fetch_settled (e : Endpoint) (waits : List Nat) (w : World) :
    (fetch e waits).answer w = (settled (responsesFrom w e) waits.length).read := by
  induction waits generalizing w with
  | nil => exact congrArg Prod.fst (fetch_run_last fun _ => rfl)
  | cons s waits ih =>
    simp only [List.length_cons, settled]
    split
    · rename_i htransient
      rw [answer, fetch_run_retry htransient, ← responsesFrom_retry w e s]
      exact ih _
    · rename_i hsettled
      exact congrArg Prod.fst (fetch_run_last fun htransient => absurd htransient hsettled)

/-- No failure of the operating system, and a body that gave no value is malformed. -/
def Response.Plain : Response → Prop
  | .outage o => o ≠ .system
  | .http _ body => ∀ f, body = .error f → f.isMalformed = true

/-- A body that is read from bytes is as plain, whatever the bytes are. -/
theorem Response.plain_ofBytes (status : Int) (bs : Bytes) : (Response.http status (Json.ofBytes bs)).Plain :=
  fun _ => Json.isMalformed_of_ofBytes

theorem settled_of_lasting (h : (responses 0).isTransient = false) (left : Nat) : settled responses left = responses 0 := by
  cases left with
  | zero => rfl
  | succ left => rw [settled, if_neg (by simp [h])]

theorem settled_plain (h : ∀ n, (responses n).Plain) (left : Nat) : (settled responses left).Plain := by
  induction left generalizing responses with
  | zero => exact h 0
  | succ left ih =>
    rw [settled]
    split
    · exact ih fun n => h (n + 1)
    · exact h 0

theorem headFault_of_malformed (h : f.isMalformed = true) : (headFault f).OfHead := by
  cases f <;> trivial

theorem headFault_of_read (hr : r.Plain) (h : r.read = .error f) : (headFault f).OfHead := by
  cases r with
  | outage o =>
    cases h
    cases o <;> trivial
  | http status body =>
    simp only [Response.read] at h
    split at h
    · cases h
      trivial
    · split at h
      · rename_i f' _
        cases h
        exact headFault_of_malformed (hr _ rfl)
      · exact headFault_of_malformed (Json.isMalformed_of_member h)

/-! ## The head -/

variable (cfg : Settings)

/-- What the response that counts tells. -/
def dataOf (w : World) (e : Endpoint) : Except Fault Json :=
  (settled (responsesFrom w e) (waits cfg.maxRetryTime).length).read

theorem fetched_eq (w : World) (e : Endpoint) : fetched cfg w e = dataOf cfg w e := fetch_settled ..

theorem ends_head_data {v : World} {x : Except Fault Head} (h : Ends (head cfg) w x v) :
    ∃ y, Joins (dataOf cfg w .header) (dataOf cfg w .checkpoints) y ∧ x = headOf cfg y := by
  obtain ⟨y, hy, hx⟩ := ends_head cfg h
  rw [fetched_eq, fetched_eq] at hy
  exact ⟨y, hy, hx⟩

theorem headOf_cases {x y : Except Fault Json} {z : Except Fault (Json × Json)} (hz : Joins x y z)
    (hx : ∀ f, x = .error f → (headFault f).OfHead) (hy : ∀ f, y = .error f → (headFault f).OfHead) :
    (∀ h, headOf cfg z = .ok h ↔
      ∃ header checkpoints, x = .ok header ∧ y = .ok checkpoints ∧ Tells cfg.network.slotsPerEpoch header checkpoints h) ∧
    (headOf cfg z = .error .infinite ↔
      ∃ header checkpoints, x = .ok header ∧ y = .ok checkpoints ∧ InfiniteFirst (numbersIn header checkpoints)) ∧
    ∀ f, headOf cfg z = .error f → f.OfHead ∨ f = .infinite := by
  have of_head : ∀ {f}, (headFault f).OfHead → (.error (headFault f) : Except Fault Head) ≠ .error .infinite := by
    intro f h heq
    rw [Except.error.inj heq] at h
    exact h
  cases hz with
  | @left f y => simpa [headOf, of_head (hx f rfl)] using Or.inl (hx f rfl)
  | @right x f => simpa [headOf, of_head (hy f rfl)] using Or.inl (hy f rfl)
  | @values header checkpoints =>
    have htells := fun h => @parse_ok_iff cfg.network.slotsPerEpoch header checkpoints h
    have hinfinite := @parse_infinite_iff cfg.network.slotsPerEpoch header checkpoints
    cases hparse : Head.parse cfg.network.slotsPerEpoch header checkpoints with
    | ok h => simp [headOf, hparse, ← htells, ← hinfinite]
    | error f =>
      rcases isMalformed_of_parse hparse with hf | rfl
      · have hne : f ≠ .infinite := fun h => by simp [h, Fault.isMalformed] at hf
        simpa [headOf, hparse, ← htells, ← hinfinite, hne, of_head (headFault_of_malformed hf)] using
          Or.inl (headFault_of_malformed hf)
      · simp [headOf, hparse, ← htells, ← hinfinite, headFault, Fault.isMalformed]

/-- Whatever the beacon node answers, the lookup ends. It tells the head exactly where both
    lookups tell their data and the data its four integers. Any other ending is a fault of
    the beacon node, but for one: where the first of the four numbers that has no integer is
    infinite, the fault is that of the number. -/
theorem head_classified (hplain : ∀ e n, (w.outside.beacon e n).Plain) :
    (∃ x v, Ends (head cfg) w x v) ∧ ∀ x v, Ends (head cfg) w x v →
      (∀ h, x = .ok h ↔ ∃ header checkpoints, dataOf cfg w .header = .ok header ∧
        dataOf cfg w .checkpoints = .ok checkpoints ∧ Tells cfg.network.slotsPerEpoch header checkpoints h) ∧
      (x = .error .infinite ↔ ∃ header checkpoints, dataOf cfg w .header = .ok header ∧
        dataOf cfg w .checkpoints = .ok checkpoints ∧ InfiniteFirst (numbersIn header checkpoints)) ∧
      ∀ f, x = .error f → f.OfHead ∨ f = .infinite := by
  have hfaults : ∀ e f, dataOf cfg w e = .error f → (headFault f).OfHead :=
    fun e f h => headFault_of_read (settled_plain (fun n => hplain e (w.gets e + n)) _) h
  refine ⟨exists_ends_head cfg w, fun x v h => ?_⟩
  obtain ⟨y, hy, rfl⟩ := ends_head_data cfg h
  exact headOf_cases cfg hy (hfaults .header) (hfaults .checkpoints)

/-- A chain, files and a beacon node, asked for the first time. -/
def beaconWorld (beacon : Endpoint → Nat → Response) : World where
  outside := { chain := { latestBlock := .ok 100, read := fun _ _ _ => .error "reverted" }, beacon,
               files := fun _ => .error .missing }

theorem dataOf_of_lasting {beacon : Endpoint → Nat → Response} (h : (beacon e 0).isTransient = false) :
    dataOf cfg (beaconWorld beacon) e = (beacon e 0).read := by
  have hfirst : (responsesFrom (beaconWorld beacon) e 0).isTransient = false := h
  rw [dataOf, settled_of_lasting hfirst]
  rfl

theorem head_classified_fine :
    (∀ e n, ((beaconWorld fineBeacon).outside.beacon e n).Plain) ∧
      ∀ x v, Ends (head {}) (beaconWorld fineBeacon) x v → x = .ok fineHead := by
  have hplain : ∀ e n, ((beaconWorld fineBeacon).outside.beacon e n).Plain := by
    intro e n
    cases e <;> exact fun f h => nomatch h
  refine ⟨hplain, fun x v h => ?_⟩
  have htells := ((head_classified {} hplain).2 x v h).1 fineHead
  exact htells.mpr ⟨_, _, dataOf_of_lasting {} rfl, dataOf_of_lasting {} rfl, rfl, rfl⟩

/-- A header whose slot is written `Infinity`. -/
def boundlessBody : Text :=
  "\x7b\"data\": \x7b\"header\": \x7b\"message\": \x7b\"slot\": Infinity\x7d\x7d\x7d\x7d"

def boundlessBeacon : Endpoint → Nat → Response
  | .header, _ => .http 200 (Json.ofBytes boundlessBody.toUtf8)
  | .checkpoints, n => fineBeacon .checkpoints n

theorem boundlessBeacon_slot :
    ∃ header, (boundlessBeacon .header 0).read = .ok header ∧
      integerAt ["header", "message", "slot"] header = .error .infinite := by
  have hslot : (boundlessBeacon .header 0).read.map (integerAt ["header", "message", "slot"]) =
      .ok (.error .infinite) := by
    decide +kernel
  cases hread : (boundlessBeacon .header 0).read with
  | error f =>
    rw [hread] at hslot
    cases hslot
  | ok header =>
    rw [hread] at hslot
    exact ⟨header, rfl, Except.ok.inj hslot⟩

/-- An infinite slot is the fault of the whole, whatever the checkpoints are. -/
theorem headOf_slot {header : Json} (h : integerAt ["header", "message", "slot"] header = .error .infinite)
    (checkpoints : Json) : headOf cfg (.ok (header, checkpoints)) = .error .infinite := by
  have hparse : Head.parse cfg.network.slotsPerEpoch header checkpoints = .error .infinite := by
    rw [Head.parse, h]
    rfl
  rw [headOf, hparse]
  rfl

/-- So a fault of the head's lookup need not be told as one. -/
theorem infinite_slot_escapes :
    (∀ e n, ((beaconWorld boundlessBeacon).outside.beacon e n).Plain) ∧
      ∃ f v, Ends (head {}) (beaconWorld boundlessBeacon) (.error f) v ∧ ¬ f.OfHead := by
  constructor
  · intro e n
    cases e with
    | header => exact Response.plain_ofBytes 200 _
    | checkpoints => exact fun f h => nomatch h
  · obtain ⟨x, v, hends⟩ := exists_ends_head {} (beaconWorld boundlessBeacon)
    have hlast : ∀ e, (boundlessBeacon e 0).isTransient = false := fun e => by cases e <;> rfl
    obtain ⟨y, hy, rfl⟩ := ends_head_data {} hends
    rw [dataOf_of_lasting {} (hlast _), dataOf_of_lasting {} (hlast _)] at hy
    obtain ⟨header, hread, hslot⟩ := boundlessBeacon_slot
    rw [hy.eq_ok_iff.mpr ⟨hread, rfl⟩, headOf_slot {} hslot] at hends
    exact ⟨.infinite, v, hends, id⟩

end Beacon

end NodeGauge
