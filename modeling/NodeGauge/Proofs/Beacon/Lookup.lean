/-
  NodeGauge.Proofs.Beacon.Lookup — what the lookup of the head comes to. The requests of one
  endpoint are answered by how often that endpoint was asked, so the other request, with its
  own repetitions and waits, cannot be noticed (`apart_fetch`). So the lookup ends with the
  head in what each of its requests would tell alone, or with a fault that one of them would
  come to alone, the first in time (`ends_head`). Whether there is a head does not hang on
  the order (`ends_head_ok_iff`).
-/

import NodeGauge.Beacon.Lookup
import NodeGauge.Proofs.Job.Sides

namespace NodeGauge.Beacon

open Job

def Fetches (e : Endpoint) : Ask → Prop
  | .get d => d = e
  | .wait _ => True
  | _ => False

def Requests : Ask → Prop
  | .get _ | .wait _ => True
  | _ => False

theorem Fetches.requests {e : Endpoint} {q : Ask} (h : Fetches e q) : Requests q := by
  cases q <;> trivial

/-- No request waits for a lock. -/
theorem Requests.ready {q : Ask} (h : Requests q) (m : Memory) : q.ready m = true := by
  cases q <;> first | rfl | exact h.elim

/-- Worlds in which the next requests of an endpoint are answered alike. -/
structure Seen (e : Endpoint) (w v : World) : Prop where
  beacon : v.outside.beacon = w.outside.beacon
  gets : v.gets e = w.gets e

variable {w v : World} {e d : Endpoint}

theorem Seen.refl (e : Endpoint) (w : World) : Seen e w w := ⟨rfl, rfl⟩

theorem Seen.trans {u : World} (h : Seen e w v) (h' : Seen e v u) : Seen e w u :=
  ⟨h'.beacon.trans h.beacon, h'.gets.trans h.gets⟩

theorem gets_after (e : Endpoint) (q : Ask) (w : World) :
    (w.after q).gets e = w.gets e + if World.isGet e q then 1 else 0 :=
  List.countP_cons

theorem Seen.after (h : Seen e w v) (q : Ask) : Seen e (w.after q) (v.after q) :=
  ⟨h.beacon, by rw [gets_after, gets_after, h.gets]⟩

theorem seen_after {q : Ask} (h : World.isGet e q = false) : Seen e w (w.after q) := ⟨rfl, by simp [gets_after, h]⟩

/-- The lookups of different endpoints do not notice each other. -/
theorem apart_fetch (hd : d ≠ e) : Apart (Seen e) (Fetches e) (Fetches d) where
  refl := Seen.refl e
  ready := fun _ _ _ hq _ _ => hq.requests.ready _
  reply := by
    intro q w v hq h
    cases q with
    | get c =>
      obtain rfl : c = e := hq
      simp only [Ask.reply, h.beacon, h.gets]
    | wait s => rfl
    | _ => exact hq.elim
  after := fun q _ _ _ h => h.after q
  aside := by
    intro q w v hq h
    cases q with
    | get c =>
      obtain rfl : c = d := hq
      exact h.trans (seen_after (by simp [World.isGet, hd]))
    | wait s => exact h.trans (seen_after rfl)
    | _ => exact hq.elim

theorem fetch_straight (e : Endpoint) (waits : List Nat) : (fetch e waits).Straight (Fetches e) := by
  induction waits with
  | nil => exact straight_bind (straight_send rfl) fun r => straight_ofExcept _
  | cons s waits ih =>
    refine straight_bind (straight_send rfl) fun r => ?_
    split
    · exact straight_bind (straight_send trivial) fun _ => ih
    · exact straight_ofExcept _

/-- A response that may pass is asked for again behind the next wait. -/
theorem fetch_run_retry {s : Nat} {waits : List Nat} (h : (w.outside.beacon e (w.gets e)).isTransient = true) :
    (fetch e (s :: waits)).run w = (fetch e waits).run ((w.after (.get e)).after (.wait s)) := by
  have htransient : (Ask.reply w (.get e)).isTransient = true := h
  show ((send (.get e) >>= fun r : Response => if r.isTransient then _ else _).run w) = _
  rw [run_send_bind, if_pos htransient]
  rfl

/-- Any other is the last, and so is one behind which no wait is left. -/
theorem fetch_run_last {waits : List Nat} (h : (w.outside.beacon e (w.gets e)).isTransient = true → waits = []) :
    (fetch e waits).run w = ((w.outside.beacon e (w.gets e)).read, w.after (.get e)) := by
  cases waits with
  | nil =>
    show ((send (.get e) >>= fun r => ofExcept (Response.read r)).run w) = _
    rw [run_send_bind, run_ofExcept]
    rfl
  | cons s waits =>
    have htransient : ¬ (Ask.reply w (.get e)).isTransient = true := fun ht => nomatch h ht
    show ((send (.get e) >>= fun r : Response => if r.isTransient then _ else ofExcept r.read).run w) = _
    rw [run_send_bind, if_neg htransient, run_ofExcept]
    rfl

/-- A response that will not pass is the answer, whatever waits are left. -/
theorem fetch_answer (h : (w.outside.beacon e (w.gets e)).isTransient = false) (waits : List Nat) :
    (fetch e waits).answer w = (w.outside.beacon e (w.gets e)).read :=
  congrArg Prod.fst (fetch_run_last fun ht => absurd (h.symm.trans ht) Bool.false_ne_true)

/-! ## The head -/

variable (cfg : Settings)

/-- The head in what the two lookups came to together. -/
def headOf : Except Fault (Json × Json) → Except Fault Head
  | .ok (header, checkpoints) => match Head.parse cfg.network.slotsPerEpoch header checkpoints with
    | .ok h => .ok h
    | .error f => .error (headFault f)
  | .error f => .error (headFault f)

theorem head_eq :
    head cfg = pair (fetch .header (waits cfg.maxRetryTime)) (fetch .checkpoints (waits cfg.maxRetryTime)) fun r =>
      ofExcept (headOf cfg r) := by
  show pair _ _ (fun r => (ofExcept r).attempt.bind _) = _
  congr 1
  funext r
  cases r with
  | error f => rfl
  | ok data =>
    obtain ⟨header, checkpoints⟩ := data
    show (match Head.parse cfg.network.slotsPerEpoch header checkpoints with
      | .ok h => _
      | .error f => _) = ofExcept (headOf cfg _)
    simp only [headOf]
    cases Head.parse cfg.network.slotsPerEpoch header checkpoints <;> rfl

theorem head_requests : (head cfg).Uses Requests := by
  rw [head_eq]
  exact ⟨(fetch_straight .header _).uses.mono fun _ => Fetches.requests,
    (fetch_straight .checkpoints _).uses.mono fun _ => Fetches.requests, fun _ => uses_ofExcept _⟩

theorem head_leaves : (head cfg).Leaves Requests := by
  rw [head_eq]
  exact ⟨(fetch_straight .header _).whole.mono fun _ => Fetches.requests,
    (fetch_straight .checkpoints _).whole.mono fun _ => Fetches.requests, fun _ => (whole_ofExcept (P := Requests) _).leaves⟩

theorem head_patient : (head cfg).Uses fun q => ∀ m, q.ready m = true :=
  (head_requests cfg).mono fun _ => Requests.ready

/-- What the lookup of one endpoint comes to when it runs alone. -/
def fetched (w : World) (e : Endpoint) : Except Fault Json := (fetch e (waits cfg.maxRetryTime)).answer w

/-- In whatever order its requests take turns, a lookup ends with the head in what both tell,
    or with the fault of one. -/
theorem ends_head {x : Except Fault Head} (h : Ends (head cfg) w x v) :
    ∃ y, Joins (fetched cfg w .header) (fetched cfg w .checkpoints) y ∧ x = headOf cfg y := by
  rw [head_eq] at h
  obtain ⟨y, u, hy, hx⟩ := Ends.of_pair (apart_fetch (by decide)) (apart_fetch (by decide)) (fetch_straight .header _)
    (fetch_straight .checkpoints _) h
  exact ⟨y, hy, (ends_ofExcept.mp hx).1⟩

theorem head_answer (w : World) :
    (head cfg).answer w = headOf cfg (joint (fetched cfg w .header) (fetched cfg w .checkpoints)) := by
  rw [answer, head_eq, Apart.run_pair (apart_fetch (e := .checkpoints) (d := .header) (by decide)) _
    (fetch_straight .header _).uses (fetch_straight .checkpoints _).uses, run_ofExcept]
  rfl

/-- There is a head in only one pair of data. -/
theorem headOf_joins {x y : Except Fault Json} {z z' : Except Fault (Json × Json)} (h : Joins x y z) (h' : Joins x y z')
    {head : Head} (hz : headOf cfg z = .ok head) : headOf cfg z' = .ok head := by
  cases z with
  | error f => cases hz
  | ok data =>
    obtain ⟨b, c⟩ := data
    rwa [h'.eq_ok_iff.mpr (h.eq_ok_iff.mp rfl)]

/-- The lookup tells a head, in whatever order, exactly where its run does. -/
theorem ends_head_ok_iff {x : Except Fault Head} (h : Ends (head cfg) w x v) {found : Head} :
    x = .ok found ↔ (head cfg).answer w = .ok found := by
  obtain ⟨y, hy, rfl⟩ := ends_head cfg h
  rw [head_answer]
  exact ⟨headOf_joins cfg hy (joins_joint ..), headOf_joins cfg (joins_joint ..) hy⟩

theorem exists_ends_head (w : World) : ∃ x v, Ends (head cfg) w x v := exists_ends (head_patient cfg) w

/-! ### A beacon node that answers -/

def slotText (path : List Text) (n : Text) : Json := path.foldr (fun key j => .object [(key, j)]) (.text n)

/-- Every request is answered at once: slot 6400, and epochs behind it. -/
def fineBeacon : Endpoint → Nat → Response
  | .header, _ => .http 200 (.ok (slotText ["data", "header", "message", "slot"] "6400"))
  | .checkpoints, _ => .http 200 (.ok (.object [("data", .object [
      ("finalized", slotText ["epoch"] "198"),
      ("current_justified", slotText ["epoch"] "199"),
      ("previous_justified", slotText ["epoch"] "198")])]))

def fineHead : Head := ⟨200, 6400, 198, 199, 198⟩

theorem fineBeacon_head (h : w.outside.beacon = fineBeacon) : (head {}).answer w = .ok fineHead := by
  have hf : ∀ e, (w.outside.beacon e (w.gets e)).isTransient = false := by
    intro e
    rw [h]
    cases e <;> rfl
  rw [head_answer, fetched, fetched, fetch_answer (hf _), fetch_answer (hf _), h]
  rfl

end NodeGauge.Beacon
