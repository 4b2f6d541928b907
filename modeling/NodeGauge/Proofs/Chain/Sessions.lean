/-
  NodeGauge.Proofs.Chain.Sessions — the client of the chain from its start on: any
  operations one after the other, while the world outside may change in front of every
  ask (`Course`, `Session`). What one operation calls and leaves in the cache is said of
  `rewardIndex` by its three ends (`Lookup`) and of the others at once (`Elsewhere`).

  The cache is always the address that the first successful getAddress gave, so it is
  asked for just as long as none has succeeded, and every getRewardIndex goes to it
  (`pool_kept_once_granted`).
-/

import NodeGauge.Proofs.Cycle.Report

namespace NodeGauge

/-! ## Courses -/

/-- The world with another outside. -/
def World.under (w : World) (o : Outside) : World := { w with outside := o }

namespace Job

variable {α β : Type} {j : Job α} {w v : World} {x : Except Fault α}

/-- The job comes to its end, and in front of each of its steps the outside may change. -/
inductive Course {α : Type} : Job α → World → Except Fault α → World → Prop where
  | ended {j : Job α} {w : World} {x : Except Fault α} (h : j.outcome? = some x) : Course j w x w
  | step {j j' : Job α} {w w' v : World} {x : Except Fault α} {ts : List Task} (s : Step j w j' w' ts)
    (h : Course j' w' x v) : Course j w x v
  | change {j : Job α} {w v : World} {x : Except Fault α} (o : Outside) (h : Course j (w.under o) x v) : Course j w x v

theorem course_ask {q : Ask} {k : q.Reply → Job α} (h : Course (ask q k) w x v) :
    ∃ o, Course (k (q.reply (w.under o))) ((w.under o).after q) x v := by
  generalize hj : ask q k = i at h
  induction h with
  | ended hx =>
    subst hj
    cases hx
  | step s h _ =>
    subst hj
    cases s with
    | ask _ => exact ⟨_, h⟩
  | change o _ ih =>
    obtain ⟨o', h'⟩ := ih hj
    exact ⟨o', h'⟩

/-- What no ask of the job and no change of the outside ends holds at the end. -/
theorem Course.keeps {P : Ask → Prop} {I : World → Prop} (hI : ∀ q w, P q → I w → I (w.after q))
    (hO : ∀ o w, I w → I (w.under o)) (h : Course j w x v) (hj : j.Uses P) (hw : I w) : I v := by
  induction h with
  | ended _ => exact hw
  | step s _ ih =>
    obtain ⟨hj', hw'⟩ := s.uses hj
    refine ih hj' ?_
    rcases hw' with rfl | ⟨q, hq, rfl⟩
    · exact hw
    · exact hI q _ hq hw
  | change o _ ih => exact ih hj (hO o _ hw)

theorem course_of_outcome {y : Except Fault α} (hj : j.outcome? = some y) (h : Course j w x v) :
    x = y ∧ ∃ o, v = w.under o := by
  induction h with
  | @ended _ w _ hx => exact ⟨Option.some.inj (hx.symm.trans hj), w.outside, rfl⟩
  | step s _ _ => exact absurd s (not_step_of_outcome hj)
  | change _ _ ih => exact ih hj

theorem Course.after_steps {j' : Job α} {w' : World} (h : Steps j w j' w') (hc : Course j' w' x v) : Course j w x v := by
  induction h with
  | refl => exact hc
  | tail _ s ih => exact ih (.step s hc)

theorem course_run (hj : j.Whole fun q => ∀ m, q.ready m = true) (w : World) : Course j w (j.answer w) (j.run w).2 := by
  obtain ⟨j', h, hx⟩ := ends_run hj w
  exact .after_steps h (.ended hx)

end Job

namespace Chain.Client

open Job Rewards

/-! ## Operations -/

/-- What the client can be asked for. -/
inductive Operation where
  | latestBlock
  | rewardIndex
  | claimedBitmap (node : Text) (bucket : Int)
  | nodeShare (minipool : Text) (balance : Wei) (block : Int)

@[reducible] def Operation.Result : Operation → Type
  | .latestBlock => Int
  | _ => Nat

def Operation.job (storage : Address) : (o : Operation) → Job o.Result
  | .latestBlock => Client.latestBlock
  | .rewardIndex => Client.rewardIndex storage
  | .claimedBitmap node bucket => Client.claimedBitmap storage node bucket
  | .nodeShare minipool balance block => nodeShareOf minipool balance block

/-- Operations one after the other, with the outside as it happens to be. -/
inductive Session (storage : Address) : World → World → Prop where
  | start {w : World} : Session storage w w
  | turn {w v u : World} (h : Session storage w v) (o : Operation) {x : Except Fault o.Result}
    (t : Course (o.job storage) v x u) : Session storage w u

/-! ## Calls -/

/-- The call is of getAddress, of getRewardIndex. -/
def AsksAddress (data : Bytes) : Prop := data.take 4 = (getAddress []).take 4

def AsksIndex (data : Bytes) : Prop := data.take 4 = getRewardIndex

instance : DecidablePred AsksAddress := fun data => inferInstanceAs (Decidable (data.take 4 = (getAddress []).take 4))

/-- The address that an exchange gave, if it was a getAddress that succeeded. -/
def granted : Exchange → Option Address
  | ⟨.call (.read _ data _), .ok bytes⟩ => if AsksAddress data then (decodeAddress bytes).toOption else none
  | _ => none

/-- What the first getAddress that succeeded gave. -/
def firstGranted (w : World) : Option Address := (w.history.reverse.filterMap granted).head?

/-- The call that asks for the contract that pays the rewards. -/
def poolCall (storage : Address) : Call := .read storage (getAddress rewardsPoolKey) .latest

def indexCall (pool : Address) : Call := .read pool getRewardIndex .latest

theorem asksAddress_getAddress (key : Bytes) : AsksAddress (getAddress key) := rfl

theorem not_asksIndex_getAddress (key : Bytes) : ¬ AsksIndex (getAddress key) := by
  simp [AsksIndex, getAddress, getRewardIndex]

theorem indexCall_ne_poolCall (pool storage : Address) : indexCall pool ≠ poolCall storage := by
  intro h
  have hdata : getRewardIndex = getAddress rewardsPoolKey := (Call.read.inj h).2.1
  exact not_asksIndex_getAddress rewardsPoolKey (hdata ▸ rfl)

theorem granted_poolCall (storage : Address) (bytes : Bytes) :
    granted ⟨.call (poolCall storage), .ok bytes⟩ = (decodeAddress bytes).toOption := by
  show (if AsksAddress (getAddress rewardsPoolKey) then (decodeAddress bytes).toOption else none) = _
  rw [if_pos (asksAddress_getAddress _)]

theorem firstGranted_after (w : World) (q : Ask) :
    firstGranted (w.after q) = (firstGranted w).or (granted ⟨q, q.reply w⟩) := by
  show ((⟨q, q.reply w⟩ :: w.history).reverse.filterMap granted).head? = _
  rw [List.reverse_cons, List.filterMap_append, List.head?_append]
  congr 1
  cases h : granted ⟨q, q.reply w⟩ <;> simp [h]

/-! ## The operations that look for no contract -/

/-- A call that is neither of getAddress nor of getRewardIndex. -/
def Elsewhere : Ask → Prop
  | .call (.read _ data _) => ¬ AsksAddress data ∧ ¬ AsksIndex data
  | .call .latestBlock => True
  | _ => False

theorem elsewhere_getUint (contract : Address) (key : Bytes) (block : BlockTag) :
    Elsewhere (.call (.read contract (getUint key) block)) := by
  simp [Elsewhere, AsksAddress, AsksIndex, getUint, getAddress, getRewardIndex]

theorem elsewhere_calculateNodeShare (contract : Address) (balance : Nat) (block : BlockTag) :
    Elsewhere (.call (.read contract (calculateNodeShare balance) block)) := by
  simp [Elsewhere, AsksAddress, AsksIndex, calculateNodeShare, getAddress, getRewardIndex]

theorem blockAt_uses (block : Int) : (blockAt block).Uses Elsewhere := by
  unfold blockAt
  by_cases h : 0 ≤ block
  · rw [if_pos h]
    trivial
  · rw [if_neg h]
    refine uses_bind (latestBlock_straight trivial).uses fun n => ?_
    dsimp only
    split <;> trivial

theorem Operation.job_uses {o : Operation} (ho : o ≠ .rewardIndex) (storage : Address) :
    (o.job storage).Uses Elsewhere := by
  cases o with
  | latestBlock => exact (latestBlock_straight trivial).uses
  | rewardIndex => exact absurd rfl ho
  | claimedBitmap node bucket =>
    exact uses_bind (uses_ofExcept _) fun key => (numberOf_straight (elsewhere_getUint _ _ _)).uses
  | nodeShare minipool balance block =>
    show (nodeShareOf minipool balance block).Uses Elsewhere
    unfold nodeShareOf
    split
    · unfold Client.nodeShare
      split
      · exact uses_bind (blockAt_uses block) fun tag => (numberOf_straight (elsewhere_calculateNodeShare _ _ _)).uses
      · trivial
    · trivial

theorem granted_elsewhere {c : Call} (hc : Elsewhere (.call c)) (r : (Ask.call c).Reply) : granted ⟨.call c, r⟩ = none := by
  cases c with
  | latestBlock => rfl
  | read contract data block =>
    cases r with
    | error message => rfl
    | ok bytes => exact if_neg hc.1

/-- What such an operation leaves of a world. -/
structure Beside (w v : World) : Prop where
  calls : ∃ made, v.calls = w.calls ++ made ∧
    ∀ contract data block, .read contract data block ∈ made → ¬ AsksAddress data ∧ ¬ AsksIndex data
  cache : v.memory.rewardsPool = w.memory.rewardsPool
  granted : firstGranted v = firstGranted w

theorem Beside.refl (w : World) : Beside w w := ⟨⟨[], by simp, by simp⟩, rfl, rfl⟩

theorem Beside.after {w v : World} {q : Ask} (hq : Elsewhere q) (h : Beside w v) : Beside w (v.after q) := by
  obtain ⟨made, hcalls, hmade⟩ := h.calls
  obtain ⟨c, rfl⟩ : ∃ c, q = .call c := by
    cases q <;> first | exact ⟨_, rfl⟩ | exact hq.elim
  refine ⟨⟨made ++ [c], ?_, ?_⟩, h.cache, ?_⟩
  · rw [World.calls_after, hcalls, List.append_assoc]
  · intro contract data block hmem
    rcases List.mem_append.mp hmem with hmem | hmem
    · exact hmade contract data block hmem
    · cases List.mem_singleton.mp hmem
      exact hq
  · rw [firstGranted_after, h.granted, granted_elsewhere hq]
    exact Option.or_none

theorem Operation.beside {storage : Address} {o : Operation} (ho : o ≠ .rewardIndex) {w v : World}
    {x : Except Fault o.Result} (t : Course (o.job storage) w x v) : Beside w v :=
  t.keeps (fun _ _ hq h => h.after hq) (fun _ _ h => ⟨h.calls, h.cache, h.granted⟩) (o.job_uses ho storage) (.refl w)

/-! ## The operation that looks for the contract -/

/-- The ends of `rewardIndex`: the address was kept, it was asked for in vain, it was found. -/
inductive Lookup (storage : Address) (w v : World) : Except Fault Nat → Prop where
  | kept {a : Address} {x : Except Fault Nat} (cached : w.memory.rewardsPool = some a)
    (calls : v.calls = w.calls ++ [indexCall a]) (cache : v.memory.rewardsPool = some a)
    (granted : firstGranted v = firstGranted w) : Lookup storage w v x
  | refused {f : Fault} (cached : w.memory.rewardsPool = none) (calls : v.calls = w.calls ++ [poolCall storage])
    (cache : v.memory.rewardsPool = none) (granted : firstGranted v = firstGranted w) : Lookup storage w v (.error f)
  | found {a : Address} {x : Except Fault Nat} (cached : w.memory.rewardsPool = none)
    (calls : v.calls = w.calls ++ [poolCall storage, indexCall a]) (cache : v.memory.rewardsPool = some a)
    (granted : firstGranted v = (firstGranted w).or (some a)) : Lookup storage w v x

/-- What is left once it is known whether an address is kept. -/
def seek (storage : Address) : Option Address → Job Nat
  | some a => numberOf a getRewardIndex .latest
  | none => ask (.call (poolCall storage)) fun
    | .ok bytes => match decodeAddress bytes with
      | .ok a => ask (.keepRewardsPool a) fun _ => numberOf a getRewardIndex .latest
      | .error f => .fail f
    | .error message => .fail (.unreachable message)

theorem rewardIndex_eq (storage : Address) : Client.rewardIndex storage = ask .rewardsPool (seek storage) := by
  refine congrArg (ask Ask.rewardsPool) (funext fun kept => ?_)
  cases kept with
  | some a => rfl
  | none =>
    refine congrArg (ask (.call (poolCall storage))) (funext fun r => ?_)
    cases r with
    | error message => rfl
    | ok bytes =>
      show (((Job.ofExcept (decodeAddress bytes)).bind fun a => (send (.keepRewardsPool a)).bind fun _ => done a).bind
        fun a => numberOf a getRewardIndex .latest) = _
      cases hd : decodeAddress bytes <;> simp only [hd] <;> rfl

variable {w v : World} {x : Except Fault Nat} {storage : Address}

/-- One call, whatever it gives, and nothing kept. -/
theorem course_numberOf {contract : Address} {data : Bytes} {block : BlockTag}
    (h : Course (numberOf contract data block) w x v) :
    ∃ o o', v = ((w.under o).after (.call (.read contract data block))).under o' := by
  obtain ⟨o, h⟩ := course_ask h
  cases hr : Ask.reply (w.under o) (.call (.read contract data block)) with
  | error message =>
    rw [hr] at h
    obtain ⟨-, o', rfl⟩ := course_of_outcome (y := .error (.unreachable message)) rfl h
    exact ⟨o, o', rfl⟩
  | ok bytes =>
    rw [hr] at h
    have hx : (Job.ofExcept (decodeNumber bytes)).outcome? = some (decodeNumber bytes) := by
      cases decodeNumber bytes <;> rfl
    obtain ⟨-, o', rfl⟩ := course_of_outcome hx h
    exact ⟨o, o', rfl⟩

theorem course_index {a : Address} (h : Course (numberOf a getRewardIndex .latest) w x v) :
    v.calls = w.calls ++ [indexCall a] ∧ v.memory = w.memory ∧ firstGranted v = firstGranted w := by
  obtain ⟨o, o', rfl⟩ := course_numberOf h
  refine ⟨World.calls_after (w.under o) (.call (indexCall a)), rfl, ?_⟩
  have hno : ∀ r, granted ⟨.call (indexCall a), r⟩ = none := by
    rintro (message | bytes) <;> rfl
  show firstGranted ((w.under o).after (.call (indexCall a))) = _
  rw [firstGranted_after, hno]
  exact Option.or_none

theorem course_seek (h : Course (seek storage w.memory.rewardsPool) w x v) : Lookup storage w v x := by
  cases hk : w.memory.rewardsPool with
  | some a =>
    rw [hk] at h
    obtain ⟨hcalls, hmemory, hgranted⟩ := course_index h
    exact .kept hk hcalls (by rw [hmemory, hk]) hgranted
  | none =>
    rw [hk] at h
    obtain ⟨o, h⟩ := course_ask h
    have hcalls : ((w.under o).after (.call (poolCall storage))).calls = w.calls ++ [poolCall storage] :=
      World.calls_after (w.under o) (.call (poolCall storage))
    have hgranted := firstGranted_after (w.under o) (.call (poolCall storage))
    cases hr : Ask.reply (w.under o) (.call (poolCall storage)) with
    | error message =>
      rw [hr] at h hgranted
      obtain ⟨rfl, o', rfl⟩ := course_of_outcome (y := .error (.unreachable message)) rfl h
      exact .refused hk hcalls hk (hgranted.trans Option.or_none)
    | ok bytes =>
      rw [hr] at h hgranted
      rw [granted_poolCall] at hgranted
      dsimp only at h
      cases hd : decodeAddress bytes with
      | error f =>
        rw [hd] at h hgranted
        obtain ⟨rfl, o', rfl⟩ := course_of_outcome (y := .error f) rfl h
        exact .refused hk hcalls hk (hgranted.trans Option.or_none)
      | ok a =>
        rw [hd] at h hgranted
        obtain ⟨o', h⟩ := course_ask h
        obtain ⟨hindex, hmemory, hlast⟩ := course_index h
        refine .found hk ?_ (by rw [hmemory]; rfl) ?_
        · rw [hindex, World.calls_after]
          show (((w.under o).after (.call (poolCall storage))).calls ++ []) ++ [indexCall a] = _
          rw [hcalls, List.append_nil, List.append_assoc]
          rfl
        · rw [hlast, firstGranted_after]
          exact Option.or_none.trans hgranted

theorem course_rewardIndex (h : Course (Client.rewardIndex storage) w x v) : Lookup storage w v x := by
  rw [rewardIndex_eq] at h
  obtain ⟨o, h⟩ := course_ask h
  have hcalls : ((w.under o).after .rewardsPool).calls = w.calls :=
    (World.calls_after (w.under o) .rewardsPool).trans (List.append_nil _)
  have hgranted : firstGranted ((w.under o).after .rewardsPool) = firstGranted w :=
    (firstGranted_after (w.under o) .rewardsPool).trans Option.or_none
  cases course_seek (w := (w.under o).after .rewardsPool) h with
  | kept hk hc hm hg => exact .kept hk (hcalls ▸ hc) hm (hg.trans hgranted)
  | refused hk hc hm hg => exact .refused hk (hcalls ▸ hc) hm (hg.trans hgranted)
  | found hk hc hm hg => exact .found hk (hcalls ▸ hc) hm (hgranted ▸ hg)

/-! ## Sessions -/

/-- The cache is what the first successful getAddress gave, and every getRewardIndex went there. -/
structure Kept (w : World) : Prop where
  cache : w.memory.rewardsPool = firstGranted w
  index : ∀ contract data block, .read contract data block ∈ w.calls → AsksIndex data → firstGranted w = some contract

/-- A new client has called nothing. -/
theorem Kept.blank (hnew : w.memory.rewardsPool = none) (h : w.history = []) : Kept w := by
  refine ⟨by rw [hnew, firstGranted, h]; rfl, ?_⟩
  intro contract data block hmem _
  rw [World.calls, h] at hmem
  exact absurd hmem List.not_mem_nil

/-- It lasts while no getAddress succeeds for the first time and each getRewardIndex goes to
    the address there is. -/
theorem Kept.extend (hw : Kept w) {made : List Call} (calls : v.calls = w.calls ++ made)
    (cache : v.memory.rewardsPool = w.memory.rewardsPool) (granted : firstGranted v = firstGranted w)
    (hmade : ∀ contract data block, .read contract data block ∈ made → AsksIndex data → firstGranted w = some contract) :
    Kept v := by
  refine ⟨by rw [cache, granted, hw.cache], ?_⟩
  intro contract data block hmem hdata
  rw [calls] at hmem
  rw [granted]
  rcases List.mem_append.mp hmem with hmem | hmem
  · exact hw.index contract data block hmem hdata
  · exact hmade contract data block hmem hdata

theorem Kept.lookup (hw : Kept w) (h : Lookup storage w v x) : Kept v := by
  cases h with
  | kept cached calls cache granted =>
    refine hw.extend calls (cache.trans cached.symm) granted fun contract data block hmem _ => ?_
    cases List.mem_singleton.mp hmem
    rw [← hw.cache, cached]
  | refused cached calls cache granted =>
    refine hw.extend calls (cache.trans cached.symm) granted fun contract data block hmem hdata => ?_
    cases List.mem_singleton.mp hmem
    exact absurd hdata (not_asksIndex_getAddress _)
  | @found a _ cached calls cache granted =>
    have hfirst : firstGranted w = none := by rw [← hw.cache, cached]
    rw [hfirst, Option.none_or] at granted
    refine ⟨by rw [cache, granted], ?_⟩
    intro contract data block hmem hdata
    -- no read of an index came before: it would have gone to an address given by then
    rw [calls] at hmem
    simp only [List.mem_append, List.mem_cons, List.not_mem_nil, or_false] at hmem
    rcases hmem with hmem | hmem | hmem
    · have hsome := hw.index contract data block hmem hdata
      rw [hfirst] at hsome
      cases hsome
    · cases hmem
      exact absurd hdata (not_asksIndex_getAddress _)
    · cases hmem
      exact granted

theorem Kept.beside (hw : Kept w) (h : Beside w v) : Kept v := by
  obtain ⟨made, hcalls, hmade⟩ := h.calls
  exact hw.extend hcalls h.cache h.granted fun contract data block hmem hdata =>
    absurd hdata (hmade contract data block hmem).2

theorem Kept.turn (hw : Kept w) {o : Operation} {y : Except Fault o.Result} (t : Course (o.job storage) w y v) : Kept v := by
  by_cases ho : o = .rewardIndex
  · subst ho
    exact hw.lookup (course_rewardIndex t)
  · exact hw.beside (o.beside ho t)

theorem Session.kept (h : Session storage w v) (hw : Kept w) : Kept v := by
  induction h with
  | start => exact hw
  | turn _ o t ih => exact ih.turn t

/-- In any session of a new client the cache is what the first successful getAddress gave and
    every getRewardIndex went there. An operation for the reward index calls getAddress first
    just where none has succeeded; if that fails it fails, makes no other call and keeps
    nothing. No other operation calls getAddress or getRewardIndex, or changes the cache. -/
theorem pool_kept_once_granted (hnew : w.memory.rewardsPool = none) (hblank : w.history = [])
    (hs : Session storage w v) :
    v.memory.rewardsPool = firstGranted v ∧
      (∀ contract data block, .read contract data block ∈ v.calls → AsksIndex data → firstGranted v = some contract) ∧
      (∀ x u, Course (Client.rewardIndex storage) v x u → ∃ made, u.calls = v.calls ++ made ∧
        (made.head? = some (poolCall storage) ↔ firstGranted v = none) ∧
        (firstGranted v = none → firstGranted u = none →
          (∃ f, x = .error f) ∧ made = [poolCall storage] ∧ u.memory.rewardsPool = none) ∧
        (firstGranted v = none → ∀ a, firstGranted u = some a →
          made = [poolCall storage, indexCall a] ∧ u.memory.rewardsPool = some a) ∧
        ∀ a, firstGranted v = some a → made = [indexCall a] ∧ u.memory.rewardsPool = some a) ∧
      ∀ (o : Operation) (x : Except Fault o.Result) (u : World), o ≠ .rewardIndex → Course (o.job storage) v x u →
        ∃ made, u.calls = v.calls ++ made ∧
          (∀ contract data block, .read contract data block ∈ made → ¬ AsksAddress data ∧ ¬ AsksIndex data) ∧
          u.memory.rewardsPool = v.memory.rewardsPool := by
  have hv := hs.kept (.blank hnew hblank)
  refine ⟨hv.cache, hv.index, ?_, ?_⟩
  · intro x u t
    cases course_rewardIndex t with
    | kept cached calls cache granted =>
      rename_i a
      have hfirst : firstGranted v = some a := by rw [← hv.cache, cached]
      refine ⟨_, calls, ?_, ?_, ?_, ?_⟩
      · simp [hfirst, indexCall_ne_poolCall]
      · simp [hfirst]
      · simp [hfirst]
      · intro b hb
        cases hfirst.symm.trans hb
        exact ⟨rfl, cache⟩
    | refused cached calls cache granted =>
      have hfirst : firstGranted v = none := by rw [← hv.cache, cached]
      refine ⟨_, calls, ?_, ?_, ?_, ?_⟩
      · simp [hfirst]
      · exact fun _ _ => ⟨⟨_, rfl⟩, rfl, cache⟩
      · simp [granted, hfirst]
      · simp [hfirst]
    | found cached calls cache granted =>
      rename_i a
      have hfirst : firstGranted v = none := by rw [← hv.cache, cached]
      rw [hfirst, Option.none_or] at granted
      refine ⟨_, calls, ?_, ?_, ?_, ?_⟩
      · simp [hfirst]
      · simp [granted]
      · intro _ b hb
        cases granted.symm.trans hb
        exact ⟨rfl, cache⟩
      · simp [hfirst]
  · intro o x u ho t
    have h := o.beside ho t
    obtain ⟨made, hcalls, hmade⟩ := h.calls
    exact ⟨made, hcalls, hmade, h.cache⟩

/-- A node that answers every read with the number 7, or none. -/
def nodeThat (up : Bool) : Outside where
  chain := {
    latestBlock := .ok 1
    read := fun _ _ _ => if up then .ok (word 7) else .error "down" }
  beacon := Beacon.fineBeacon
  files := fun _ => .error .missing

/-- The node is down when the contract is looked for, and up the next time. -/
theorem pool_kept_once_granted_late :
    ∃ v, Session default { outside := nodeThat false } v ∧ v.memory.rewardsPool = some (Address.ofNat 7) ∧
      firstGranted v = some (Address.ofNat 7) := by
  have hready : (Client.rewardIndex default).Whole fun q => ∀ m, q.ready m = true := by
    refine (straight_bind (rewardsPool_straight ?_ ?_ ?_) fun a => numberOf_straight ?_).whole
    all_goals intros; rfl
  let first := ((Client.rewardIndex default).run { outside := nodeThat false }).2
  let last := ((Client.rewardIndex default).run (first.under (nodeThat true))).2
  have hs : Session default { outside := nodeThat false } last :=
    .turn (.turn .start .rewardIndex (course_run hready _)) .rewardIndex (.change (nodeThat true) (course_run hready _))
  have hcache : last.memory.rewardsPool = some (Address.ofNat 7) := rfl
  refine ⟨last, hs, hcache, ?_⟩
  rw [← (pool_kept_once_granted rfl rfl hs).1, hcache]

end Chain.Client
end NodeGauge
