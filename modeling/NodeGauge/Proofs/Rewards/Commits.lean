/-
  NodeGauge.Proofs.Rewards.Commits — what commits leave in the ledger.

  A commit counts an interval when no commit before it named the interval, and with the
  amounts the interval first comes with in this commit (`firsts`). The staging of the
  ledger sums exactly these (`stage_eq`), so a commit is known by its two exact sums
  (`commit_cases`).

  `commits_ok_iff`: a run of commits on an empty ledger succeeds when every sum is an
  amount, and then the totals are the sums in ether added up from the left, the handled
  intervals are all that were named, each once, and the next block follows that of the last
  commit. All that the run counts, put together, is what first comes with each interval in
  the whole history.
-/

import Mathlib.Algebra.Order.Ring.Int
import Mathlib.Data.List.Basic
import NodeGauge.Rewards.Ledger

namespace NodeGauge.Rewards

/-! ## What a commit counts -/

def indices (infos : List IntervalInfo) : List Int := infos.map (·.index)

/-- The exact sums over intervals. -/
def rplOf (infos : List IntervalInfo) : Wei := (infos.map (·.collateralRpl)).sum

def ethOf (infos : List IntervalInfo) : Wei := (infos.map (·.smoothingPoolEth)).sum

/-- What first comes with each interval that is not among the earlier ones. -/
def firsts (earlier : List Int) (infos : List IntervalInfo) : List IntervalInfo :=
  ((indices infos).filter fun i => !earlier.contains i).eraseDups.filterMap fun i => infos.find? (·.index == i)

@[simp] theorem indices_cons (x : IntervalInfo) (r : List IntervalInfo) : indices (x :: r) = x.index :: indices r := rfl

@[simp] theorem indices_append (a b : List IntervalInfo) : indices (a ++ b) = indices a ++ indices b := by
  simp [indices]

@[simp] theorem rplOf_cons (x : IntervalInfo) (r : List IntervalInfo) :
    rplOf (x :: r) = x.collateralRpl + rplOf r := rfl

@[simp] theorem ethOf_cons (x : IntervalInfo) (r : List IntervalInfo) :
    ethOf (x :: r) = x.smoothingPoolEth + ethOf r := rfl

theorem not_contains_snoc (earlier : List Int) (a i : Int) :
    (!(earlier ++ [a]).contains i) = (!i == a && !earlier.contains i) := by
  simp [Bool.and_comm, Bool.beq_eq_decide_eq]

theorem find?_cons_of_ne {x : IntervalInfo} {i : Int} (h : i ≠ x.index) (r : List IntervalInfo) :
    (x :: r).find? (·.index == i) = r.find? (·.index == i) :=
  List.find?_cons_of_neg (by simpa using Ne.symm h)

/-- Only which intervals came earlier counts, not their order. -/
theorem firsts_congr {a b : List Int} (h : ∀ i, i ∈ a ↔ i ∈ b) (infos : List IntervalInfo) :
    firsts a infos = firsts b infos := by
  have hc : ∀ i, a.contains i = b.contains i := fun i => by
    rw [Bool.eq_iff_iff, List.contains_iff_mem, List.contains_iff_mem]
    exact h i
  simp only [firsts, hc]

theorem firsts_cons_of_mem {earlier : List Int} {x : IntervalInfo} (h : x.index ∈ earlier) (r : List IntervalInfo) :
    firsts earlier (x :: r) = firsts earlier r := by
  have hx : (!earlier.contains x.index) = false := by simp [h]
  simp only [firsts, indices_cons, List.filter_cons, hx, Bool.false_eq_true, if_false]
  refine List.filterMap_congr fun i hi => ?_
  have hn : i ∉ earlier := by simpa using (List.mem_filter.mp (List.mem_eraseDups.mp hi)).2
  exact find?_cons_of_ne (by intro hi; subst hi; exact hn h) r

theorem firsts_cons_of_not_mem {earlier : List Int} {x : IntervalInfo} (h : x.index ∉ earlier)
    (r : List IntervalInfo) : firsts earlier (x :: r) = x :: firsts (earlier ++ [x.index]) r := by
  have hx : (!earlier.contains x.index) = true := by simp [h]
  have hf : ((indices r).filter fun i => !earlier.contains i).filter (fun i => !i == x.index) =
      (indices r).filter fun i => !(earlier ++ [x.index]).contains i := by
    rw [List.filter_filter]
    exact List.filter_congr fun i _ => (not_contains_snoc earlier x.index i).symm
  simp only [firsts, indices_cons, List.filter_cons, hx, if_true, List.eraseDups_cons, hf, List.filterMap_cons,
    List.find?_cons, beq_self_eq_true]
  congr 1
  refine List.filterMap_congr fun i hi => ?_
  have hn : i ∉ earlier ++ [x.index] := by simpa using (List.mem_filter.mp (List.mem_eraseDups.mp hi)).2
  exact find?_cons_of_ne (by intro hi; subst hi; simp at hn) r

theorem indices_firsts (earlier : List Int) (infos : List IntervalInfo) :
    indices (firsts earlier infos) = ((indices infos).filter fun i => !earlier.contains i).eraseDups := by
  induction infos generalizing earlier with
  | nil => rfl
  | cons x r ih =>
    by_cases h : x.index ∈ earlier
    · rw [firsts_cons_of_mem h, ih]
      simp [h]
    · rw [firsts_cons_of_not_mem h, indices_cons, ih, indices_cons, List.filter_cons_of_pos (by simp [h]),
        List.eraseDups_cons, List.filter_filter]
      exact congrArg (fun l => x.index :: l.eraseDups)
        (List.filter_congr fun i _ => not_contains_snoc earlier x.index i)

/-- Going through two lists in turn counts what going through them together does. -/
theorem firsts_append (earlier : List Int) (a b : List IntervalInfo) :
    firsts earlier (a ++ b) = firsts earlier a ++ firsts (earlier ++ indices a) b := by
  induction a generalizing earlier with
  | nil => simp [firsts, indices]
  | cons x r ih =>
    by_cases h : x.index ∈ earlier
    · rw [List.cons_append, firsts_cons_of_mem h, firsts_cons_of_mem h, ih]
      refine congrArg _ (firsts_congr (fun i => ?_) b)
      simp only [indices_cons, List.mem_append, List.mem_cons]
      constructor
      · intro h
        rcases h with hi | hi
        · exact Or.inl hi
        · exact Or.inr (Or.inr hi)
      · intro h
        rcases h with hi | rfl | hi
        · exact Or.inl hi
        · exact Or.inl h
        · exact Or.inr hi
    · rw [List.cons_append, firsts_cons_of_not_mem h, firsts_cons_of_not_mem h, ih, List.cons_append,
        indices_cons, List.append_assoc, List.singleton_append]

/-- Distinct intervals of which none came earlier all count. -/
theorem firsts_of_new {earlier : List Int} {infos : List IntervalInfo} (hd : (indices infos).Nodup)
    (he : ∀ i ∈ indices infos, i ∉ earlier) : firsts earlier infos = infos := by
  induction infos generalizing earlier with
  | nil => rfl
  | cons x r ih =>
    obtain ⟨hx, hr⟩ := List.nodup_cons.mp hd
    rw [firsts_cons_of_not_mem (he x.index (List.mem_cons_self ..)), ih hr]
    intro i hi hm
    rcases List.mem_append.mp hm with h | h
    · exact he i (List.mem_cons_of_mem _ hi) h
    · rw [List.mem_singleton.mp h] at hi
      exact hx hi

/-! ## Staging -/

theorem foldl_stageOne (l : Ledger) (b : Batch) (infos : List IntervalInfo) :
    infos.foldl l.stageOne b =
      ⟨b.rpl + rplOf (firsts (l.handled ++ b.fresh) infos), b.eth + ethOf (firsts (l.handled ++ b.fresh) infos),
        b.fresh ++ indices (firsts (l.handled ++ b.fresh) infos)⟩ := by
  induction infos generalizing b with
  | nil => simp [firsts, indices, rplOf, ethOf]
  | cons x r ih =>
    rw [List.foldl_cons, ih]
    by_cases h : x.index ∈ l.handled ++ b.fresh
    · have hs : l.stageOne b x = b := by
        simpa [Ledger.stageOne, Ledger.isHandled, List.contains_iff_mem] using
          fun h1 h2 => absurd h (by simp [h1, h2])
      rw [hs, firsts_cons_of_mem h]
    · have hs : l.stageOne b x =
          ⟨b.rpl + x.collateralRpl, b.eth + x.smoothingPoolEth, b.fresh ++ [x.index]⟩ := by
        rw [List.mem_append, not_or] at h
        simp [Ledger.stageOne, Ledger.isHandled, h.1, h.2]
      rw [hs, firsts_cons_of_not_mem h]
      simp [Int.add_assoc]

/-- The staging sums exactly what the commit counts. -/
theorem stage_eq (l : Ledger) (infos : List IntervalInfo) :
    l.stage infos =
      ⟨rplOf (firsts l.handled infos), ethOf (firsts l.handled infos), indices (firsts l.handled infos)⟩ := by
  have h := foldl_stageOne l {} infos
  simpa [Ledger.stage] using h

/-! ## One commit -/

/-- The ledger with amounts in ether and intervals added to it. -/
def Ledger.plus (l : Ledger) (rpl eth : Double) (fresh : List Int) (block : Int) : Ledger :=
  ⟨l.rpl + rpl, l.eth + eth, l.handled ++ fresh, some (block + 1)⟩

theorem commit_of_ok {l : Ledger} {infos : List IntervalInfo} {rpl eth : Double} (block : Int)
    (hr : Wei.toEther (rplOf (firsts l.handled infos)) = .ok rpl)
    (he : Wei.toEther (ethOf (firsts l.handled infos)) = .ok eth) :
    l.commit infos block = (l.plus rpl eth (indices (firsts l.handled infos)) block, .ok ()) := by
  simp only [Ledger.commit, stage_eq, hr, he, Ledger.plus]

/-- A sum of ETH that is no amount is met when the RPL total has moved. -/
theorem commit_of_eth_error {l : Ledger} {infos : List IntervalInfo} {rpl : Double} {f : Fault} (block : Int)
    (hr : Wei.toEther (rplOf (firsts l.handled infos)) = .ok rpl)
    (he : Wei.toEther (ethOf (firsts l.handled infos)) = .error f) :
    l.commit infos block = ({ l with rpl := l.rpl + rpl }, .error f) := by
  simp only [Ledger.commit, stage_eq, hr, he]

theorem commit_of_rpl_error {l : Ledger} {infos : List IntervalInfo} {f : Fault} (block : Int)
    (hr : Wei.toEther (rplOf (firsts l.handled infos)) = .error f) : l.commit infos block = (l, .error f) := by
  simp only [Ledger.commit, stage_eq, hr]

/-- All that a commit can come to. -/
theorem commit_cases (l : Ledger) (infos : List IntervalInfo) (block : Int) :
    (∃ rpl eth, Wei.toEther (rplOf (firsts l.handled infos)) = .ok rpl ∧
      Wei.toEther (ethOf (firsts l.handled infos)) = .ok eth ∧
      l.commit infos block = (l.plus rpl eth (indices (firsts l.handled infos)) block, .ok ())) ∨
    (∃ rpl f, Wei.toEther (rplOf (firsts l.handled infos)) = .ok rpl ∧
      Wei.toEther (ethOf (firsts l.handled infos)) = .error f ∧
      l.commit infos block = ({ l with rpl := l.rpl + rpl }, .error f)) ∨
    ∃ f, Wei.toEther (rplOf (firsts l.handled infos)) = .error f ∧ l.commit infos block = (l, .error f) := by
  cases hr : Wei.toEther (rplOf (firsts l.handled infos)) with
  | error f => exact Or.inr (Or.inr ⟨f, rfl, commit_of_rpl_error block hr⟩)
  | ok rpl =>
    cases he : Wei.toEther (ethOf (firsts l.handled infos)) with
    | error f => exact Or.inr (Or.inl ⟨rpl, f, rfl, rfl, commit_of_eth_error block hr he⟩)
    | ok eth => exact Or.inl ⟨rpl, eth, rfl, rfl, commit_of_ok block hr he⟩

theorem commit_ok_iff {l l' : Ledger} {infos : List IntervalInfo} {block : Int} :
    l.commit infos block = (l', .ok ()) ↔
      ∃ rpl eth, Wei.toEther (rplOf (firsts l.handled infos)) = .ok rpl ∧
        Wei.toEther (ethOf (firsts l.handled infos)) = .ok eth ∧
        l' = l.plus rpl eth (indices (firsts l.handled infos)) block := by
  constructor
  · intro h
    obtain ⟨rpl, eth, hr, he, hc⟩ | ⟨_, _, -, -, hc⟩ | ⟨_, -, hc⟩ := commit_cases l infos block <;> rw [hc] at h
    · exact ⟨rpl, eth, hr, he, (Prod.mk.inj h).1.symm⟩
    · cases h
    · cases h
  · intro h
    obtain ⟨rpl, eth, hr, he, rfl⟩ := h
    exact commit_of_ok block hr he

/-- A commit that went well and has folded intervals in says so: which ones, in order, and
    the totals behind it. Any other says nothing. -/
theorem line?_eq_some_iff {l : Ledger} {infos : List IntervalInfo} {block : Int} {n : Note} :
    l.line? infos block = some n ↔
      ∃ l', l.commit infos block = (l', .ok ()) ∧ indices (firsts l.handled infos) ≠ [] ∧
        n = .folded ((indices (firsts l.handled infos)).mergeSort (· ≤ ·)) l'.rpl l'.eth := by
  have hfresh : (l.stage infos).fresh = indices (firsts l.handled infos) := by rw [stage_eq]
  unfold Ledger.line?
  rw [hfresh]
  cases hc : l.commit infos block with
  | mk l' r =>
    cases r with
    | error f => simp
    | ok _ => cases indices (firsts l.handled infos) <;> simp [eq_comm]

theorem line?_level {l : Ledger} {infos : List IntervalInfo} {block : Int} {n : Note}
    (h : l.line? infos block = some n) : n.level = .info := by
  obtain ⟨_, -, -, rfl⟩ := line?_eq_some_iff.mp h
  rfl

/-- Even a commit that fails handles nothing that it does not count. -/
theorem mem_commit_handled {l : Ledger} {infos : List IntervalInfo} {block i : Int}
    (hi : i ∈ (l.commit infos block).1.handled) : i ∈ l.handled ∨ i ∈ indices (firsts l.handled infos) := by
  obtain ⟨_, _, -, -, hc⟩ | ⟨_, _, -, -, hc⟩ | ⟨_, -, hc⟩ := commit_cases l infos block <;> rw [hc] at hi
  · exact List.mem_append.mp hi
  · exact Or.inl hi
  · exact Or.inl hi

/-- No commit forgets an interval, even one that fails. -/
theorem mem_handled_commit {l : Ledger} {i : Int} (hi : i ∈ l.handled) (infos : List IntervalInfo) (block : Int) :
    i ∈ (l.commit infos block).1.handled := by
  obtain ⟨_, _, -, -, hc⟩ | ⟨_, _, -, -, hc⟩ | ⟨_, -, hc⟩ := commit_cases l infos block <;> rw [hc]
  · exact List.mem_append_left _ hi
  · exact hi
  · exact hi

/-! ## Runs of commits -/

/-- What a commit is called with. -/
structure Commit where
  infos : List IntervalInfo
  block : Int

/-- All intervals of a history as they came. -/
def history (cs : List Commit) : List IntervalInfo := cs.flatMap (·.infos)

/-- What each commit of a run counts. -/
def counted (earlier : List Int) : List Commit → List (List IntervalInfo)
  | [] => []
  | c :: cs => firsts earlier c.infos :: counted (earlier ++ indices c.infos) cs

/-- Commits one after the other, up to the first that fails. -/
def Ledger.commits (l : Ledger) : List Commit → Except Fault Ledger
  | [] => .ok l
  | c :: cs => match l.commit c.infos c.block with
    | (l, .ok ()) => l.commits cs
    | (_, .error f) => .error f

theorem counted_congr {a b : List Int} (h : ∀ i, i ∈ a ↔ i ∈ b) (cs : List Commit) : counted a cs = counted b cs := by
  induction cs generalizing a b with
  | nil => rfl
  | cons c cs ih =>
    simp only [counted]
    rw [firsts_congr h, ih (b := b ++ indices c.infos) fun i => by simp [h]]

/-- Put together, a run counts what first comes with each interval in the whole history. -/
theorem counted_flatten (earlier : List Int) (cs : List Commit) :
    (counted earlier cs).flatten = firsts earlier (history cs) := by
  induction cs generalizing earlier with
  | nil => rfl
  | cons c cs ih => simp only [counted, List.flatten_cons, ih, history, List.flatMap_cons, firsts_append]

theorem mem_append_indices_firsts (earlier : List Int) (infos : List IntervalInfo) (i : Int) :
    i ∈ earlier ++ indices (firsts earlier infos) ↔ i ∈ earlier ++ indices infos := by
  rw [indices_firsts, List.mem_append, List.mem_append, List.mem_eraseDups, List.mem_filter]
  by_cases h : i ∈ earlier <;> simp [h]

/-- What a commit leaves handled and what it named are one to the commits behind it. -/
theorem counted_of_counted (earlier : List Int) (infos : List IntervalInfo) (cs : List Commit) :
    counted (earlier ++ indices (firsts earlier infos)) cs = counted (earlier ++ indices infos) cs :=
  counted_congr (mem_append_indices_firsts earlier infos) cs

theorem indices_firsts_history (earlier : List Int) (c : Commit) (cs : List Commit) :
    indices (firsts earlier (history (c :: cs))) = indices (firsts earlier c.infos) ++
      indices (firsts (earlier ++ indices (firsts earlier c.infos)) (history cs)) := by
  rw [firsts_congr (mem_append_indices_firsts earlier c.infos), ← indices_append, ← firsts_append]
  rfl

theorem mapM_cons_ok_iff {α β : Type} (f : α → Except Fault β) (a : α) (as : List α) (bs : List β) :
    (a :: as).mapM f = .ok bs ↔ ∃ x xs, f a = .ok x ∧ as.mapM f = .ok xs ∧ bs = x :: xs := by
  rw [List.mapM_cons]
  cases f a with
  | error e => simp [bind, Except.bind]
  | ok x => cases as.mapM f with
    | error e => simp [bind, Except.bind]
    | ok xs => simp [bind, Except.bind, pure, Except.pure, eq_comm]

theorem lastBlock_cons (c : Commit) (cs : List Commit) (o : Option Int) :
    ((c :: cs).getLast?.map (·.block + 1)).or o = (cs.getLast?.map (·.block + 1)).or (some (c.block + 1)) := by
  rw [List.getLast?_cons]
  cases cs.getLast? <;> rfl

/-- A run on any ledger. The induction is on the commits; what the rest counts depends on
    the ledger only by its handled intervals, and those are the ones named so far. -/
theorem commits_ok_iff_from (l l' : Ledger) (cs : List Commit) :
    l.commits cs = .ok l' ↔
      ∃ rpl eth, (counted l.handled cs).mapM (fun new => Wei.toEther (rplOf new)) = .ok rpl ∧
        (counted l.handled cs).mapM (fun new => Wei.toEther (ethOf new)) = .ok eth ∧
        l' = ⟨rpl.foldl (· + ·) l.rpl, eth.foldl (· + ·) l.eth, l.handled ++ indices (firsts l.handled (history cs)),
          (cs.getLast?.map (·.block + 1)).or l.nextBlock⟩ := by
  induction cs generalizing l with
  | nil =>
    have hf : firsts l.handled (history []) = [] := rfl
    simp [Ledger.commits, counted, hf, indices, pure, Except.pure, eq_comm]
  | cons c cs ih =>
    have hrest : ∀ rpl eth, (l.plus rpl eth (indices (firsts l.handled c.infos)) c.block).commits cs = .ok l' ↔
        ∃ rpls eths, (counted (l.handled ++ indices c.infos) cs).mapM (fun new => Wei.toEther (rplOf new)) = .ok rpls ∧
          (counted (l.handled ++ indices c.infos) cs).mapM (fun new => Wei.toEther (ethOf new)) = .ok eths ∧
          l' = ⟨rpls.foldl (· + ·) (l.rpl + rpl), eths.foldl (· + ·) (l.eth + eth),
            l.handled ++ indices (firsts l.handled (history (c :: cs))),
            ((c :: cs).getLast?.map (·.block + 1)).or l.nextBlock⟩ := by
      intro rpl eth
      rw [ih, lastBlock_cons, indices_firsts_history]
      simp only [Ledger.plus, counted_of_counted, List.append_assoc]
    simp only [counted, mapM_cons_ok_iff]
    constructor
    · intro h
      cases hcommit : l.commit c.infos c.block with
      | mk l₁ r =>
        cases r with
        | error f => simp [Ledger.commits, hcommit] at h
        | ok u =>
          obtain ⟨rpl, eth, hr, he, rfl⟩ := commit_ok_iff.mp hcommit
          simp only [Ledger.commits, hcommit] at h
          obtain ⟨rpls, eths, hrs, hes, rfl⟩ := (hrest rpl eth).mp h
          exact ⟨rpl :: rpls, eth :: eths, ⟨rpl, rpls, hr, hrs, rfl⟩, ⟨eth, eths, he, hes, rfl⟩, rfl⟩
    · intro h
      obtain ⟨_, _, ⟨rpl, rpls, hr, hrs, rfl⟩, ⟨eth, eths, he, hes, rfl⟩, rfl⟩ := h
      simp only [Ledger.commits, commit_of_ok c.block hr he]
      exact (hrest rpl eth).mpr ⟨rpls, eths, hrs, hes, rfl⟩

/-- Exactly once: a run of commits on an empty ledger succeeds when the exact sums of what
    its commits count are amounts. Then each total is those sums in ether, added from the
    left; the handled intervals are the ones named in the history, each once; and the next
    block follows the last commit's. Over the whole run each interval counts once, with the
    amounts it first comes with. -/
theorem commits_ok_iff (cs : List Commit) :
    (∀ l, Ledger.empty.commits cs = .ok l ↔
      ∃ rpl eth, (counted [] cs).mapM (fun new => Wei.toEther (rplOf new)) = .ok rpl ∧
        (counted [] cs).mapM (fun new => Wei.toEther (ethOf new)) = .ok eth ∧
        l = { rpl := Double.sum rpl, eth := Double.sum eth, handled := (indices (history cs)).eraseDups,
              nextBlock := cs.getLast?.map (·.block + 1) }) ∧
      (counted [] cs).flatten =
        (indices (history cs)).eraseDups.filterMap fun i => (history cs).find? (·.index == i) := by
  have hf : firsts [] (history cs) =
      (indices (history cs)).eraseDups.filterMap fun i => (history cs).find? (·.index == i) := by
    simp [firsts]
  refine ⟨fun l => ?_, by rw [counted_flatten, hf]⟩
  have hi : indices (firsts [] (history cs)) = (indices (history cs)).eraseDups := by
    rw [indices_firsts]
    simp
  rw [commits_ok_iff_from]
  simp only [Ledger.empty, List.nil_append, hi, Option.or_none, Double.sum]

-- Interval 0 comes three times, and counts with the amounts it came with first.
example :
    let paid (i : Int) (rpl eth : Wei) : IntervalInfo :=
      { index := i, path := "", found := true, listed := true, collateralRpl := rpl, smoothingPoolEth := eth }
    Ledger.empty.commits
        [⟨[paid 0 (10 ^ 18) 0, paid 0 7 7], 5⟩, ⟨[paid 1 (2 * 10 ^ 18) (10 ^ 18), paid 0 9 9], 8⟩] =
      .ok { rpl := 3, eth := 1, handled := [0, 1], nextBlock := some 9 } := by
  decide +kernel

end NodeGauge.Rewards
