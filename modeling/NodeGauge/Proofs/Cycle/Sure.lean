/-
  NodeGauge.Proofs.Cycle.Sure — what is sure of a cycle that has the ledger to itself, while
  the chain, the files, the beacon node and the rest of the memory may change between any two
  of its asks. What it emits is about one claim status, which it has read itself
  (`Account.Fits`): the claimed intervals that the ledger did not hold are in its one
  commit, the totals are those of the ledger behind that commit, and the unclaimed amounts
  are those of the trees it read of the unclaimed ones (`sure_collect`).
-/

import Mathlib.Data.List.Forall2
import NodeGauge.Proofs.Cycle.Outcome
import NodeGauge.Proofs.Job.Sure

namespace NodeGauge

open Job

namespace Rewards

/-! ## What was read -/

/-- The tree of an interval was read, and says this about the node. -/
def ReadIn (cfg : Settings) (node : Text) (seen : List Exchange) (i : Int) (info : IntervalInfo) : Prop :=
  info.found = true ∧ ∃ answer, ⟨.file (treePath cfg.network.treeName cfg.treesDir i), answer⟩ ∈ seen ∧
    intervalOf node i (treePath cfg.network.treeName cfg.treesDir i) answer = .ok info

variable {cfg : Settings} {node : Text} {seen all : List Exchange} {i : Int} {info : IntervalInfo} {l l' : Ledger}

theorem ReadIn.mono (h : seen ⊆ all) (hi : ReadIn cfg node seen i info) : ReadIn cfg node all i info := by
  obtain ⟨hfound, answer, hmem, hinfo⟩ := hi
  exact ⟨hfound, answer, h hmem, hinfo⟩

theorem ReadIn.index (h : ReadIn cfg node seen i info) : info.index = i := by
  obtain ⟨-, answer, -, hinfo⟩ := h
  unfold intervalOf at hinfo
  split at hinfo
  · cases hinfo
    rfl
  · cases hinfo
  · split at hinfo
    · cases hinfo
    · split at hinfo
      · rename_i hparse
        cases hinfo
        exact (parseTree_ok hparse).2.1
      · cases hinfo

/-- The trees of intervals, one after the other. -/
def AllRead (cfg : Settings) (node : Text) (seen : List Exchange) : List Int → List IntervalInfo → Prop :=
  List.Forall₂ (ReadIn cfg node seen)

variable {intervals : List Int} {infos : List IntervalInfo}

theorem AllRead.mono (h : seen ⊆ all) (hi : AllRead cfg node seen intervals infos) :
    AllRead cfg node all intervals infos :=
  hi.imp fun _ _ => ReadIn.mono h

theorem AllRead.indices (h : AllRead cfg node seen intervals infos) : indices infos = intervals := by
  induction h with
  | nil => rfl
  | cons hi _ ih => rw [indices_cons, hi.index, ih]

/-! ## The rewards unit -/

theorem sure_resolved {Q : List Exchange → Ledger → Except Fault IntervalInfo → Prop} {claimed : Bool}
    (hok : ∀ seen' info, Noted seen seen' → ReadIn cfg node seen' i info → Q seen' l (.ok info))
    (herror : ∀ seen' f, Noted seen seen' → Q seen' l (.error f)) :
    (resolved cfg node claimed i).Sure Q seen l := by
  refine ⟨trivial, fun answer _ => ?_⟩
  have hnoted : Noted seen (⟨.file (treePath cfg.network.treeName cfg.treesDir i), answer⟩ :: seen) :=
    (Noted.refl seen).cons (q := .file _) trivial answer
  show ((Job.ofExcept (intervalOf node i (treePath cfg.network.treeName cfg.treesDir i) answer)).bind fun info =>
    if info.found then done info else fail (.treeMissing info.path i claimed)).Sure Q _ _
  cases hinfo : intervalOf node i (treePath cfg.network.treeName cfg.treesDir i) answer with
  | error f => exact herror _ f hnoted
  | ok info =>
    show (if info.found then done info else fail _).Sure Q _ _
    by_cases hfound : info.found = true
    · rw [if_pos hfound]
      exact hok _ info hnoted ⟨hfound, answer, List.mem_cons_self .., hinfo⟩
    · rw [if_neg hfound]
      exact herror _ _ hnoted

/-- The ledger stays what it is while it is looked up. -/
theorem sure_newlyClaimed {Q : List Exchange → Ledger → Except Fault (List IntervalInfo) → Prop}
    (hok : ∀ seen' infos, Noted seen seen' → AllRead cfg node seen' (intervals.filter fun i => !l.isHandled i) infos →
      Q seen' l (.ok infos))
    (herror : ∀ seen' f, Noted seen seen' → Q seen' l (.error f)) :
    (newlyClaimed cfg node intervals).Sure Q seen l := by
  induction intervals generalizing seen Q with
  | nil => exact hok seen [] (.refl seen) .nil
  | cons i rest ih =>
    refine ⟨trivial, fun r hr => ?_⟩
    cases hr
    have hlook : Noted seen (⟨.ledger, l⟩ :: seen) := (Noted.refl seen).cons (q := .ledger) trivial l
    by_cases h : l.isHandled i = true
    · show Job.Sure (if l.isHandled i then newlyClaimed cfg node rest else _) Q _ _
      rw [if_pos h]
      refine ih (fun seen' infos hs hinfos => hok seen' infos (hlook.trans hs) ?_) fun seen' f hs =>
        herror seen' f (hlook.trans hs)
      rwa [List.filter_cons_of_neg (by simp [h])]
    · show Job.Sure (if l.isHandled i then _ else (resolved cfg node true i).bind fun info =>
        (newlyClaimed cfg node rest).bind fun infos => done (info :: infos)) Q _ _
      rw [if_neg h]
      refine sure_bind (sure_resolved (fun seen₁ info hs₁ hinfo => ?_) fun seen₁ f hs₁ =>
        herror seen₁ f (hlook.trans hs₁))
      refine sure_bind (ih (fun seen₂ infos hs₂ hinfos => ?_) fun seen₂ f hs₂ =>
        herror seen₂ f (hlook.trans (hs₁.trans hs₂)))
      refine hok seen₂ (info :: infos) (hlook.trans (hs₁.trans hs₂)) ?_
      rw [List.filter_cons_of_pos (by simp [h])]
      exact .cons (hinfo.mono hs₂.sublist.subset) hinfos

theorem sure_unclaimedSums {Q : List Exchange → Ledger → Except Fault (Wei × Wei) → Prop}
    (hok : ∀ seen' infos, Noted seen seen' → AllRead cfg node seen' intervals infos →
      Q seen' l (.ok (rplOf (infos.filter (·.listed)), ethOf (infos.filter (·.listed)))))
    (herror : ∀ seen' f, Noted seen seen' → Q seen' l (.error f)) :
    (unclaimedSums cfg node intervals).Sure Q seen l := by
  induction intervals generalizing seen Q with
  | nil => exact hok seen [] (.refl seen) .nil
  | cons i rest ih =>
    refine sure_bind (sure_resolved (fun seen₁ info hs₁ hinfo => ?_) fun seen₁ f hs₁ => herror seen₁ f hs₁)
    refine sure_bind (ih (fun seen₂ infos hs₂ hinfos => ?_) fun seen₂ f hs₂ => herror seen₂ f (hs₁.trans hs₂))
    have hall := hok seen₂ (info :: infos) (hs₁.trans hs₂) (.cons (hinfo.mono hs₂.sublist.subset) hinfos)
    show Q seen₂ l (.ok (if info.listed then (info.collateralRpl + rplOf _, info.smoothingPoolEth + ethOf _) else _))
    cases hl : info.listed with
    | false => simpa [hl] using hall
    | true => simpa [hl, rplOf, ethOf] using hall

/-- What the unit went by: the claim status, what the trees say of the claimed intervals that
    were not handled and of the unclaimed ones, and the latest block. -/
structure Account where
  status : ClaimStatus
  newly : List IntervalInfo
  unclaimed : List IntervalInfo
  block : Int

/-- It was read in these exchanges, is what was committed on the ledger, and makes up what is
    unclaimed. -/
structure Account.Fits (cfg : Settings) (node : Text) (c : Account) (seen : List Exchange) (l l' : Ledger)
    (u : Unclaimed) : Prop where
  status : ∃ asked, asked.Sublist seen ∧ (claimStatus cfg node).Along asked (.ok c.status)
  newly : AllRead cfg node seen (c.status.claimed.filter fun i => !l.isHandled i) c.newly
  unclaimed : AllRead cfg node seen c.status.unclaimed c.unclaimed
  commits : commitsIn seen = [(c.newly, c.block)]
  commit : l.commit c.newly c.block = (l', .ok ())
  rpl : Wei.toEther (rplOf (c.unclaimed.filter (·.listed))) = .ok u.rpl
  eth : Wei.toEther (ethOf (c.unclaimed.filter (·.listed))) = .ok u.eth

theorem Account.Fits.noted {c : Account} {u : Unclaimed} (h : Noted seen all) (hc : c.Fits cfg node seen l l' u) :
    c.Fits cfg node all l l' u := by
  obtain ⟨⟨asked, hasked, hstatus⟩, hnewly, hunclaimed, hcommits, hcommit, hrpl, heth⟩ := hc
  have hmore : seen ⊆ all := h.sublist.subset
  exact ⟨⟨asked, hasked.trans h.sublist, hstatus⟩, hnewly.mono hmore, hunclaimed.mono hmore, h.commits.trans hcommits,
    hcommit, hrpl, heth⟩

/-- Behind the commit the intervals of the status that are claimed are handled, with those
    that were. -/
theorem Account.Fits.handled {c : Account} {u : Unclaimed} (hc : c.Fits cfg node seen l l' u) (i : Int) :
    i ∈ l'.handled ↔ i ∈ l.handled ∨ i ∈ c.status.claimed := by
  obtain ⟨rpl, eth, -, -, rfl⟩ := commit_ok_iff.mp hc.commit
  show i ∈ l.handled ++ Rewards.indices (firsts l.handled c.newly) ↔ _
  rw [List.mem_append, indices_firsts, List.mem_eraseDups, List.mem_filter, hc.newly.indices, List.mem_filter]
  by_cases h : i ∈ l.handled
  · simp [h]
  · simp [Ledger.isHandled, h]

theorem noCommit_of_seeks (q : Ask) (h : Seeks q) : q.NoCommit := by
  cases q <;> trivial

theorem noCommit_of_looks (q : Ask) (h : Looks q) : q.NoCommit := noCommit_of_seeks q (seeks_of_looks q h)

/-- What the unit does behind its reads. -/
theorem sure_settle {c : Account} {Q : List Exchange → Ledger → Except Fault Unclaimed → Prop}
    (hfresh : ∀ info ∈ c.newly, l.isHandled info.index = false)
    (hok : ∀ u, Wei.toEther (rplOf (c.unclaimed.filter (·.listed))) = .ok u.rpl →
      Wei.toEther (ethOf (c.unclaimed.filter (·.listed))) = .ok u.eth → (l.commit c.newly c.block).2 = .ok () →
      Q (⟨.commit c.newly c.block, .ok ()⟩ :: seen) (l.commit c.newly c.block).1 (.ok u))
    (herror : ∀ r f, Q (⟨.commit c.newly c.block, r⟩ :: seen) (l.commit c.newly c.block).1 (.error f)) :
    (settle ⟨c.newly, rplOf (c.unclaimed.filter (·.listed)), ethOf (c.unclaimed.filter (·.listed)), c.block⟩).Sure
      Q seen l := by
  refine ⟨hfresh, fun r hr => ?_⟩
  obtain rfl : r = (l.commit c.newly c.block).2 := hr
  show ((Job.ofExcept (l.commit c.newly c.block).2).bind fun _ =>
    (Job.ofExcept (Wei.toEther (rplOf _))).bind fun rpl => (Job.ofExcept (Wei.toEther (ethOf _))).bind fun eth =>
      done (Unclaimed.mk rpl eth)).Sure Q _ _
  cases hcommit : (l.commit c.newly c.block).2 with
  | error f => exact herror _ f
  | ok _ =>
    cases hrpl : Wei.toEther (rplOf (c.unclaimed.filter (·.listed))) with
    | error f => exact herror _ f
    | ok rpl =>
      cases heth : Wei.toEther (ethOf (c.unclaimed.filter (·.listed))) with
      | error f => exact herror _ f
      | ok eth => exact hok ⟨rpl, eth⟩ hrpl heth hcommit

theorem sure_reconcile (h : commitsIn seen = []) :
    (reconcile cfg node).Sure (fun seen' l' x => ∀ u, x = .ok u → ∃ c : Account, c.Fits cfg node seen' l l' u)
      seen l := by
  have herror : ∀ {seen' : List Exchange} {l' : Ledger} {f : Fault} (u : Unclaimed), Except.error f = .ok u →
      ∃ c : Account, c.Fits cfg node seen' l l' u := fun u hu => nomatch hu
  rw [reconcile_eq]
  refine sure_bind (sure_bind (sure_of_straight ((claimStatus_seeks cfg node).mono noCommit_of_seeks) ?_))
  intro asked x hasked hnone
  cases x with
  | error f => exact herror
  | ok status =>
    have hstatus : commitsIn (asked ++ seen) = [] := by rw [commitsIn_append, hnone, h]; rfl
    refine sure_bind (sure_newlyClaimed (fun seen₁ newly hs₁ hnewly => ?_) fun _ _ _ => herror)
    refine sure_bind (sure_unclaimedSums (fun seen₂ unclaimed hs₂ hunclaimed => ?_) fun _ _ _ => herror)
    refine sure_bind (sure_of_noCommit ((latestBlock_looks.mono noCommit_of_looks).uses) fun seen₃ x hs₃ => ?_)
    cases x with
    | error f => exact herror
    | ok block =>
      have hbefore : Noted (asked ++ seen) seen₃ := hs₁.trans (hs₂.trans hs₃)
      refine sure_settle (c := ⟨status, newly, unclaimed, block⟩) (fun info hinfo => ?_) (fun u hrpl heth hcommit => ?_)
        fun _ _ => herror
      · have hindex : info.index ∈ Rewards.indices newly := List.mem_map_of_mem hinfo
        rw [hnewly.indices] at hindex
        simpa using (List.mem_filter.mp hindex).2
      · intro _ hu
        cases hu
        have hcommits : commitsIn seen₃ = [] := hbefore.commits.trans hstatus
        have hlater : seen₃ ⊆ ⟨.commit newly block, .ok ()⟩ :: seen₃ := List.subset_cons_self _ seen₃
        exact ⟨⟨status, newly, unclaimed, block⟩, {
          status := ⟨asked, ((List.sublist_append_left asked seen).trans hbefore.sublist).trans
            (List.sublist_cons_self _ seen₃), hasked⟩
          newly := (hnewly.mono (hs₂.trans hs₃).sublist.subset).mono hlater
          unclaimed := (hunclaimed.mono hs₃.sublist.subset).mono hlater
          commits := congrArg ((newly, block) :: ·) hcommits
          commit := Prod.ext rfl hcommit
          rpl := hrpl
          eth := heth }⟩

end Rewards

namespace Cycle

open NodeGauge.Rewards (Account Ledger)

/-! ## The cycle -/

variable {cfg : Settings} {node : Address} {seen : List Exchange} {l : Ledger}

/-- What a cycle emits is about one claim status, with the totals of the ledger behind its
    commit. All that the status has for claimed is in these. -/
def Settled (cfg : Settings) (node : Address) (l : Ledger) (seen : List Exchange) (l' : Ledger) (m : Metrics) : Prop :=
  ∃ (c : Account) (u : Rewards.Unclaimed), c.Fits cfg node.text seen l l' u ∧ Tells m u l' ∧
    ∀ i, i ∈ l'.handled ↔ i ∈ l.handled ∨ i ∈ c.status.claimed

theorem Settled.noted {all : List Exchange} {l' : Ledger} {m : Metrics} (h : Noted seen all)
    (hm : Settled cfg node l seen l' m) : Settled cfg node l all l' m := by
  obtain ⟨c, u, hc, ht, hhandled⟩ := hm
  exact ⟨c, u, hc.noted h, ht, hhandled⟩

/-- The same of an ending, if it emits. -/
def Emits (cfg : Settings) (node : Address) (l : Ledger) (seen : List Exchange) (l' : Ledger) :
    Except Fault (Option Metrics) → Prop
  | .ok (some m) => Settled cfg node l seen l' m
  | _ => True

theorem Emits.noted {all : List Exchange} {l' : Ledger} {x : Except Fault (Option Metrics)} (h : Noted seen all)
    (hx : Emits cfg node l seen l' x) : Emits cfg node l all l' x := by
  cases x with
  | error f => trivial
  | ok o =>
    cases o with
    | none => trivial
    | some m => exact Settled.noted h hx

theorem noCommit_of_calls (q : Ask) (h : Calls q) : q.NoCommit := by
  cases q <;> trivial

theorem noCommit_of_requests (q : Ask) (h : Beacon.Requests q) : q.NoCommit := by
  cases q <;> trivial

theorem noCommit_of_peeks (q : Ask) (h : Peeks q) : q.NoCommit := by
  cases q <;> trivial

theorem sure_tell {b : Basis} {e : Estimates} {c : Account} {u : Rewards.Unclaimed}
    {r : Except Fault (List BalanceDetails)} {l₀ : Ledger} (hc : c.Fits cfg node.text seen l₀ l u) :
    (tell b e u r).Sure (Emits cfg node l₀) seen l := by
  cases r with
  | error f => exact ⟨trivial, fun _ _ => trivial⟩
  | ok balances =>
    refine ⟨trivial, fun l' hl => ?_⟩
    cases hl
    show ((ofExcept (metrics b e u balances l)).bind fun m => done (some m)).Sure _ _ _
    cases hm : metrics b e u balances l with
    | error f => trivial
    | ok m =>
      exact ⟨c, u, hc.noted ((Noted.refl seen).cons (q := .ledger) trivial l), metrics_rewards hm, hc.handled⟩

theorem sure_report {b : Basis} {x : Except Fault Rewards.Unclaimed} {y : Except Fault Beacon.Head} {l₀ : Ledger}
    (h : ∀ u, x = .ok u → ∃ c : Account, c.Fits cfg node.text seen l₀ l u) :
    (report cfg b (x, y)).Sure (Emits cfg node l₀) seen l := by
  cases x with
  | error f => exact ⟨trivial, fun _ _ => trivial⟩
  | ok u =>
    obtain ⟨c, hc⟩ := h u rfl
    cases y with
    | error f => exact ⟨trivial, fun _ _ => trivial⟩
    | ok head =>
      show (finish cfg b u head).Sure _ _ _
      rw [finish_eq]
      cases estimate b with
      | error f => trivial
      | ok e =>
        have hcalls := balances_calls cfg.batchSize b.snapshot head.epoch b.snapshot.block b.minipools
        show ((Minipool.balances ..).attempt.bind (tell b e u)).Sure _ _ _
        refine sure_bind (sure_of_noCommit (uses_attempt (hcalls.uses.mono noCommit_of_calls)) fun seen' r hs => ?_)
        cases r with
        | error f => trivial
        | ok r => exact sure_tell (hc.noted hs)

theorem sure_body (h : commitsIn seen = []) : (body cfg node).Sure (Emits cfg node l) seen l := by
  rw [body_eq]
  refine sure_bind (sure_of_noCommit ((prepare_peeks node).uses.mono noCommit_of_peeks) fun seen' r hs => ?_)
  cases r with
  | error f => trivial
  | ok o =>
    cases o with
    | none => trivial
    | some b =>
      have hhead := (Beacon.head_requests cfg).mono noCommit_of_requests
      exact sure_bind ⟨_, Rewards.sure_reconcile (hs.commits.trans h), hhead, fun _ _ _ _ hR => sure_report hR⟩

/-- While the ledger is its own, and whatever else changes. -/
theorem sure_collect (cfg : Settings) (node : Address) (l : Ledger) :
    (collect cfg node).Sure (Emits cfg node l) [] l := by
  show (withLock .cycle (body cfg node)).Sure _ _ _
  rw [withLock_eq]
  refine ⟨trivial, fun r _ => sure_bind (sure_attempt (Sure.mono (fun seen l' x hx => ?_) (sure_body rfl)))⟩
  refine ⟨trivial, fun r _ => ?_⟩
  have hleft := hx.noted ((Noted.refl seen).cons (q := .release .cycle) trivial r)
  cases x <;> exact hleft

end Cycle

end NodeGauge
