/-
  NodeGauge.Proofs.Beacon.Retries — how often the beacon node is asked. The waits in front
  of repeated requests double from one second, each is cut to the time left, and there is
  another as long as time is left (`waits_paced`); so 20 seconds allow five of them. A
  lookup makes a request for each response up to the one that counts, the first that will
  not pass or the last that can be had (`fetch_made`).

  The lookup of the head has two of them run side by side. One fault ends it, and the other
  goes on to its own end (`NodeGauge.Proofs.Beacon.Tasks`), so each makes as many requests
  as it would alone (`stands_made`). `retries_bounded` is the whole.
-/

import Mathlib.Algebra.Order.Ring.Int
import NodeGauge.Proofs.Beacon.Faults
import NodeGauge.Proofs.Beacon.Tasks

namespace NodeGauge

/-- The seconds waited before requests were repeated, wait by wait. -/
def World.waited (w : World) : List Nat :=
  w.history.reverse.filterMap fun x => match x.ask with
    | .wait s => some s
    | _ => none

theorem World.waited_after (w : World) (q : Ask) :
    (w.after q).waited = w.waited ++ (match q with | .wait s => [s] | _ => []) := by
  simp only [waited, after, List.reverse_cons, List.filterMap_append]
  cases q <;> rfl

namespace Beacon

open Job

/-! ## Responses -/

/-- A failure that may be over by the next request. -/
inductive Response.Passing : Response → Prop where
  | connection : Passing (.outage .connection)
  | disconnected : Passing (.outage .disconnected)
  | payload : Passing (.outage .payload)
  | timeout : Passing (.outage .timeout)
  | server {status : Int} {body : Except Fault Json} (h : 500 ≤ status) : Passing (.http status body)

/-- An answer that says the request is wrong, is of another kind than asked for, or is meant
    to be good and tells no data. -/
inductive Response.Final : Response → Prop where
  | refused {status : Int} {body : Except Fault Json} (h : 400 ≤ status) (h' : status < 500) : Final (.http status body)
  | contentType : Final (.outage .contentType)
  | malformed {status : Int} {body : Except Fault Json} {f : Fault} (h : 200 ≤ status) (h' : status < 300)
    (hread : Response.read (.http status body) = .error f) : Final (.http status body)

variable {r : Response} {responses : Nat → Response}

theorem isTransient_iff : r.isTransient = true ↔ r.Passing := by
  constructor
  · intro h
    cases r with
    | outage o =>
      cases o with
      | connection => exact .connection
      | disconnected => exact .disconnected
      | payload => exact .payload
      | timeout => exact .timeout
      | contentType => cases h
      | system => cases h
    | http status body => exact .server (of_decide_eq_true h)
  · intro h
    cases h with
    | server h => exact decide_eq_true h
    | _ => rfl

theorem Response.Passing.fails (h : r.Passing) : ∃ f, r.read = .error f := by
  cases h with
  | @server status body h =>
    have h400 : 400 ≤ status := by omega
    exact ⟨_, if_pos h400⟩
  | _ => exact ⟨_, rfl⟩

theorem Response.Final.not_passing (h : r.Final) : ¬ r.Passing := by
  intro hp
  cases h with
  | refused _ h' => cases hp with | server h => omega
  | contentType => cases hp
  | malformed _ h' _ => cases hp with | server h => omega

/-! ## The waits -/

/-- Waits on a clock that runs up to a time: the first is of `2 ^ k` seconds and each twice
    the one before, but none is longer than the time left, and there is another as long as
    time is left. -/
def Paced (k time : Nat) (ws : List Nat) : Prop :=
  ∀ n, ws[n]? = if (ws.take n).sum < time then some (min (2 ^ (k + n)) (time - (ws.take n).sum)) else none

theorem waitsFrom_paced (k left : Nat) : Paced k left (waitsFrom k left) := by
  induction k, left using waitsFrom.induct with
  | case1 k =>
    intro n
    simp [waitsFrom]
  | case2 k rest wait ih =>
    intro n
    have hwait : wait ≤ rest + 1 := Nat.min_le_right ..
    have hcons : waitsFrom k (rest + 1) = wait :: waitsFrom (k + 1) (rest + 1 - wait) := by rw [waitsFrom]
    rw [hcons]
    cases n with
    | zero => simp [wait, Nat.one_shiftLeft]
    | succ n =>
      simp only [List.getElem?_cons_succ, List.take_succ_cons, List.sum_cons]
      rw [ih n, Nat.add_right_comm, Nat.add_assoc k, Nat.sub_sub]
      exact if_congr (by omega) rfl rfl

theorem waits_paced (maxTime : Int) : Paced 0 maxTime.toNat (waits maxTime) := waitsFrom_paced 0 _

/-- The fifth wait is cut from 16 seconds to the 5 that are left. -/
theorem waits_twenty : waits 20 = [1, 2, 4, 8, 5] := by
  simp [waits, waitsFrom]

/-! ## The response that counts -/

/-- All before it pass, and it does not, or no wait is left behind it. -/
structure Counts (left : Nat) (responses : Nat → Response) (n : Nat) : Prop where
  bound : n ≤ left
  before : ∀ k < n, (responses k).Passing
  last : (responses n).Passing → n = left

variable {left n m : Nat}

theorem Counts.unique (h : Counts left responses n) (h' : Counts left responses m) : n = m := by
  rcases Nat.lt_trichotomy n m with hlt | rfl | hlt
  · have := h.last (h'.before n hlt)
    have := h'.bound
    omega
  · rfl
  · have := h'.last (h.before m hlt)
    have := h.bound
    omega

theorem Counts.succ (hpass : (responses 0).Passing) (h : Counts left (fun n => responses (n + 1)) n) :
    Counts (left + 1) responses (n + 1) := by
  refine ⟨Nat.succ_le_succ h.bound, fun k hk => ?_, fun hp => congrArg (· + 1) (h.last hp)⟩
  cases k with
  | zero => exact hpass
  | succ k => exact h.before k (Nat.lt_of_succ_lt_succ hk)

theorem counts_zero (h : (responses 0).Passing → left = 0) : Counts left responses 0 :=
  ⟨Nat.zero_le _, fun k hk => absurd hk (Nat.not_lt_zero k), fun hp => (h hp).symm⟩

/-- It counts only as far as it is asked for. -/
theorem Counts.congr {responses' : Nat → Response} (h : Counts left responses n)
    (heq : ∀ k ≤ left, responses' k = responses k) : Counts left responses' n := by
  have hbound := h.bound
  refine ⟨hbound, fun k hk => ?_, fun hp => h.last ?_⟩
  · rw [heq k (by omega)]
    exact h.before k hk
  · rwa [heq n hbound] at hp

/-! ## One lookup -/

variable {w v : World} {e : Endpoint}

/-- A lookup makes the requests up to the response that counts, with the waits between them,
    and comes to what that response tells. -/
theorem fetch_made (e : Endpoint) (ws : List Nat) (w : World) :
    ∃ n, Counts ws.length (responsesFrom w e) n ∧ ((fetch e ws).run w).1 = (responsesFrom w e n).read ∧
      ((fetch e ws).run w).2.gets e = w.gets e + (n + 1) ∧
      ((fetch e ws).run w).2.waited = w.waited ++ ws.take n := by
  have hlast : ∀ {w : World} {ws : List Nat}, ((responsesFrom w e 0).Passing → ws = []) → ∃ n,
      Counts ws.length (responsesFrom w e) n ∧ ((fetch e ws).run w).1 = (responsesFrom w e n).read ∧
        ((fetch e ws).run w).2.gets e = w.gets e + (n + 1) ∧
        ((fetch e ws).run w).2.waited = w.waited ++ ws.take n := by
    intro w ws h
    rw [fetch_run_last fun ht => h (isTransient_iff.mp ht)]
    exact ⟨0, counts_zero fun hp => by simp [h hp], rfl, by simp [gets_after, World.isGet],
      by simp [World.waited_after]⟩
  induction ws generalizing w with
  | nil => exact hlast fun _ => rfl
  | cons s ws ih =>
    by_cases hpass : (responsesFrom w e 0).Passing
    · obtain ⟨n, hcounts, hread, hgets, hwaited⟩ := ih ((w.after (.get e)).after (.wait s))
      rw [responsesFrom_retry] at hcounts hread
      rw [fetch_run_retry (isTransient_iff.mpr hpass)]
      refine ⟨n + 1, hcounts.succ hpass, hread, ?_, ?_⟩
      · rw [hgets]
        simp [gets_after, World.isGet]
        omega
      · rw [hwaited]
        simp [World.waited_after]
    · exact hlast fun hp => absurd hp hpass

/-- A lookup waits for no lock. -/
theorem fetch_patient (e : Endpoint) (ws : List Nat) : (fetch e ws).Whole fun q => ∀ m, q.ready m = true :=
  (fetch_straight e ws).whole.mono fun _ hq => hq.requests.ready

/-! ## The head -/

variable (cfg : Settings)

/-- On the way a lookup of the head has made no more requests to an endpoint than its own
    responses ask for, and all of them once both requests are at their end. -/
theorem stands_made {s : Running Head} (h : Stands cfg w s) (e : Endpoint) :
    ∃ n, Counts (waits cfg.maxRetryTime).length (responsesFrom w e) n ∧ s.world.gets e ≤ w.gets e + (n + 1) ∧
      (s.Ended → s.world.gets e = w.gets e + (n + 1)) ∧
      ∀ found, s.job.outcome? = some (.ok found) → s.world.gets e = w.gets e + (n + 1) ∧
        ∃ data, (responsesFrom w e n).read = .ok data := by
  obtain ⟨n, hcounts, hread, hgets, -⟩ := fetch_made e (waits cfg.maxRetryTime) w
  have htotal : total cfg w e = w.gets e + (n + 1) := hgets
  refine ⟨n, hcounts, htotal ▸ h.gets_le e, fun hended => (h.gets_eq hended e).trans htotal, fun found hfound => ?_⟩
  obtain ⟨hended, hdata⟩ := h.told hfound
  obtain ⟨data, hdata⟩ := hdata e
  exact ⟨(h.gets_eq hended e).trans htotal, data, hread.symm.trans hdata⟩

variable {cfg}

/-- Requests are repeated for 20 seconds. A lookup ends, with what the first of six responses
    that will not pass tells, or else with the failure that the sixth is; it has made a
    request for each response up to that one, and the doubling waits between them; and a
    final response is the last.

    The lookup of the head ends with the first fault of one of its two, and the other runs
    on. On the way neither has made more requests than its own responses ask for, and both
    can come to their end, where each has made as many: two heads whose responses from an
    endpoint are the same ask it equally often, whatever the other endpoint answers. There
    is a head only if both came to their data. -/
theorem retries_bounded (hmax : cfg.maxRetryTime = 20) (w : World) :
    (∀ e, (∃ x v, Ends (fetch e (waits cfg.maxRetryTime)) w x v) ∧
      ∀ x v, Ends (fetch e (waits cfg.maxRetryTime)) w x v → ∃ n, Counts 5 (responsesFrom w e) n ∧
        x = (responsesFrom w e n).read ∧ ((responsesFrom w e n).Passing → n = 5 ∧ ∃ f, x = .error f) ∧
        v.gets e = w.gets e + (n + 1) ∧
        Paced 0 20 (waits cfg.maxRetryTime) ∧ v.waited = w.waited ++ (waits cfg.maxRetryTime).take n ∧
        ∀ k ≤ n, (responsesFrom w e k).Final → k = n) ∧
    ∀ s, Ticks ⟨head cfg, [], w⟩ s →
      (∀ e, ∃ n, Counts 5 (responsesFrom w e) n ∧ s.world.gets e ≤ w.gets e + (n + 1) ∧
        (s.Ended → s.world.gets e = w.gets e + (n + 1)) ∧
        ∀ found, s.job.outcome? = some (.ok found) → s.world.gets e = w.gets e + (n + 1) ∧
          ∃ data, (responsesFrom w e n).read = .ok data) ∧
      (∃ s', Ticks s s' ∧ s'.Ended) ∧
      ∀ w' s', Ticks ⟨head cfg, [], w'⟩ s' → s.Ended → s'.Ended →
        ∀ e, (∀ k ≤ 5, responsesFrom w' e k = responsesFrom w e k) →
          s'.world.gets e - w'.gets e = s.world.gets e - w.gets e := by
  have hfive : (waits cfg.maxRetryTime).length = 5 := by
    rw [hmax, waits_twenty]
    rfl
  have hmade : ∀ {w s}, Ticks ⟨head cfg, [], w⟩ s → Stands cfg w s := fun h => (stands_first cfg _).ticks h
  refine ⟨fun e => ⟨⟨_, _, ends_run (fetch_patient e _) w⟩, fun x v h => ?_⟩,
    fun s hs => ⟨fun e => ?_, (hmade hs).exists_ended, fun w' s' hs' hended hended' e heq => ?_⟩⟩
  · obtain ⟨n, hcounts, hread, hgets, hwaited⟩ := fetch_made e (waits cfg.maxRetryTime) w
    rw [h.run_eq (fetch_straight e _)] at hread hgets hwaited
    rw [hfive] at hcounts
    have hpaced := waits_paced cfg.maxRetryTime
    rw [hmax] at hpaced
    refine ⟨n, hcounts, hread, fun hp => ⟨hcounts.last hp, ?_⟩, hgets, by rwa [hmax], hwaited, fun k hk hfinal => ?_⟩
    · obtain ⟨f, hf⟩ := hp.fails
      exact ⟨f, hread.trans hf⟩
    · rcases Nat.lt_or_eq_of_le hk with hlt | rfl
      · exact absurd (hcounts.before k hlt) hfinal.not_passing
      · rfl
  · rw [← hfive]
    exact stands_made cfg (hmade hs) e
  · obtain ⟨n, hcounts, -, hgets, -⟩ := stands_made cfg (hmade hs) e
    obtain ⟨n', hcounts', -, hgets', -⟩ := stands_made cfg (hmade hs') e
    rw [hfive] at hcounts hcounts'
    obtain rfl : n' = n := hcounts'.unique (hcounts.congr heq)
    have hall := hgets hended
    have hall' := hgets' hended'
    omega

/-! ### A header that is refused -/

/-- There is no header, and the first two requests for the checkpoints meet a fault of the server. -/
def refusingBeacon : Endpoint → Nat → Response
  | .header, _ => .http 404 (.ok .null)
  | .checkpoints, n => if n < 2 then .http 503 (.ok .null) else fineBeacon .checkpoints n

/-- The lookup may end before the checkpoints were asked for at all. Their request goes on
    all the same, and has been made three times when it ends. -/
theorem retries_bounded_refused :
    ({} : Settings).maxRetryTime = 20 ∧ ∃ s s', Ticks ⟨head {}, [], beaconWorld refusingBeacon⟩ s ∧
      s.job.outcome? = some (.error (headFault (.httpStatus 404))) ∧ s.world.gets .checkpoints = 0 ∧
      Ticks s s' ∧ s'.Ended ∧ s'.world.gets .header = 1 ∧ s'.world.gets .checkpoints = 3 := by
  let refused : Running Head := ⟨.fail (headFault (.httpStatus 404)), [⟨fetch .checkpoints (waits 20)⟩],
    (beaconWorld refusingBeacon).after (.get .header)⟩
  have hfirst : Ticks ⟨head {}, [], beaconWorld refusingBeacon⟩ refused := by
    have hask : Step (fetch .header (waits 20)) (beaconWorld refusingBeacon) (.fail (.httpStatus 404))
        ((beaconWorld refusingBeacon).after (.get .header)) [] := by
      rw [waits_twenty]
      exact .ask (q := .get .header) rfl
    rw [head_eq]
    exact .tail (.single (.job (.pairLeft (by rw [waits_twenty]; rfl) hask))) (.job .quitLeft)
  obtain ⟨-, hall⟩ := retries_bounded (rfl : ({} : Settings).maxRetryTime = 20) (beaconWorld refusingBeacon)
  obtain ⟨-, ⟨s', hticks, hended⟩, -⟩ := hall refused hfirst
  obtain ⟨hmade, -, -⟩ := hall s' (hfirst.trans hticks)
  have hheader : Counts 5 (responsesFrom (beaconWorld refusingBeacon) .header) 0 :=
    counts_zero fun hp => by cases hp with | server h => cases h
  have hcheckpoints : Counts 5 (responsesFrom (beaconWorld refusingBeacon) .checkpoints) 2 := by
    refine ⟨by decide, fun k hk => ?_, fun hp => ?_⟩
    · have hresponse : responsesFrom (beaconWorld refusingBeacon) .checkpoints k = .http 503 (.ok .null) :=
        if_pos (show 0 + k < 2 by omega)
      rw [hresponse]
      exact .server (by decide)
    · cases hp with
      | server h => cases h
  obtain ⟨n, hn, -, hgets, -⟩ := hmade .header
  obtain rfl := hn.unique hheader
  obtain ⟨n, hn, -, hgets', -⟩ := hmade .checkpoints
  obtain rfl := hn.unique hcheckpoints
  exact ⟨rfl, refused, s', hfirst, rfl, rfl, hticks, hended, hgets hended, hgets' hended⟩

end Beacon

end NodeGauge
