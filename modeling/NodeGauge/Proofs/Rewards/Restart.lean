/-
  NodeGauge.Proofs.Rewards.Restart — one history of intervals in many commits and in one.
  A service that is started again has lost its ledger and folds in at once what it had
  folded in commit by commit.

  `commits_regrouped`: the one commit leaves each total as the exact sum, rounded once, and
  the same intervals handled. The many leave each total as the sum of what each of them adds
  in ether, from the left. It is close to the other (`Wei.Close`): each commit that adds to
  a total rounds what it adds and rounds the sum, so the total is the same if one commit at
  the most adds to it, or if what is added is exact, and else it can be another one, greater
  too (`commits_regrouped_differ`).
-/

import NodeGauge.Proofs.Rewards.Commits
import NodeGauge.Proofs.Wei.Totals

namespace NodeGauge.Rewards

variable {cs : List Commit}

/-- In a history that names no interval twice every commit counts all that it names. -/
theorem counted_of_nodup {earlier : List Int} (hd : (indices (history cs)).Nodup)
    (he : ∀ i ∈ indices (history cs), i ∉ earlier) : counted earlier cs = cs.map (·.infos) := by
  induction cs generalizing earlier with
  | nil => rfl
  | cons c cs ih =>
    have hsplit : indices (history (c :: cs)) = indices c.infos ++ indices (history cs) := by
      rw [← indices_append]
      rfl
    rw [hsplit] at hd he
    obtain ⟨hc, hcs, hapart⟩ := List.nodup_append'.mp hd
    have hrest : ∀ i ∈ indices (history cs), i ∉ earlier ++ indices c.infos := by
      intro i hi hmem
      rcases List.mem_append.mp hmem with h | h
      · exact he i (List.mem_append_right _ hi) h
      · exact hapart h hi
    rw [counted, firsts_of_new hc fun i hi => he i (List.mem_append_left _ hi), ih hcs hrest, List.map_cons]

/-! ## One total -/

section

variable (amount : IntervalInfo → Wei)

/-- What each commit adds to a total. -/
def addends (cs : List Commit) : List Wei := cs.map fun c => (c.infos.map amount).sum

theorem sum_addends (cs : List Commit) : (addends amount cs).sum = ((history cs).map amount).sum := by
  induction cs with
  | nil => rfl
  | cons c cs ih =>
    rw [history, List.flatMap_cons, List.map_append, List.sum_append, ← history, ← ih]
    rfl

variable {amount}

theorem addends_nonneg (h : ∀ i ∈ history cs, 0 ≤ amount i) : ∀ v ∈ addends amount cs, 0 ≤ v := by
  intro v hv
  obtain ⟨c, hc, rfl⟩ := List.mem_map.mp hv
  refine List.sum_nonneg fun w hw => ?_
  obtain ⟨i, hi, rfl⟩ := List.mem_map.mp hw
  exact h i (List.mem_flatMap.mpr ⟨c, hc, hi⟩)

theorem mapM_addends (cs : List Commit) :
    (addends amount cs).mapM Wei.toEther = (cs.map (·.infos)).mapM fun infos => Wei.toEther (infos.map amount).sum := by
  rw [addends, List.mapM_map, List.mapM_map]
  rfl

/-- The sums of the commits and the sum of the history all are amounts. -/
theorem exists_totals (h : ∀ i ∈ history cs, 0 ≤ amount i) (hsum : ((history cs).map amount).sum < 2 ^ 256) :
    ∃ xs once, (addends amount cs).mapM Wei.toEther = .ok xs ∧
      Wei.toEther ((history cs).map amount).sum = .ok once ∧ Wei.Close (addends amount cs) once (Double.sum xs) := by
  have hparts := addends_nonneg h
  rw [← sum_addends] at hsum ⊢
  have honce := Wei.toEther_ok_iff.mpr ⟨⟨List.sum_nonneg hparts, hsum⟩, rfl⟩
  exact ⟨_, _, Wei.mapM_toEther fun v hv => Wei.isAmount_of_mem hparts hsum hv, honce,
    Wei.total_close hparts hsum honce⟩

end

/-! ## The ledger -/

/-- A history of distinct intervals with amounts that are not below zero and come to less
    than `2 ^ 256`, in commits and in one commit: both succeed and handle the same. The one
    has the exact totals rounded once, and the many have the sums of what each of them adds
    in ether, which are close to these. -/
theorem commits_regrouped (cs : List Commit) (block : Int) (hd : (indices (history cs)).Nodup)
    (hrpl : ∀ i ∈ history cs, 0 ≤ i.collateralRpl) (heth : ∀ i ∈ history cs, 0 ≤ i.smoothingPoolEth)
    (hsums : rplOf (history cs) < 2 ^ 256 ∧ ethOf (history cs) < 2 ^ 256) :
    ∃ l one rpls eths, Ledger.empty.commits cs = .ok l ∧ Ledger.empty.commit (history cs) block = (one, .ok ()) ∧
      l.handled = one.handled ∧
      Wei.toEther (rplOf (history cs)) = .ok one.rpl ∧
      (addends (·.collateralRpl) cs).mapM Wei.toEther = .ok rpls ∧ l.rpl = Double.sum rpls ∧
      Wei.Close (addends (·.collateralRpl) cs) one.rpl l.rpl ∧
      Wei.toEther (ethOf (history cs)) = .ok one.eth ∧
      (addends (·.smoothingPoolEth) cs).mapM Wei.toEther = .ok eths ∧ l.eth = Double.sum eths ∧
      Wei.Close (addends (·.smoothingPoolEth) cs) one.eth l.eth := by
  have hnew : firsts [] (history cs) = history cs := firsts_of_new hd fun _ _ => List.not_mem_nil
  have hcounted : counted [] cs = cs.map (·.infos) := counted_of_nodup hd fun _ _ => List.not_mem_nil
  obtain ⟨rpls, rpl, hrpls, hrplOnce, hrplClose⟩ := exists_totals hrpl hsums.1
  obtain ⟨eths, eth, heths, hethOnce, hethClose⟩ := exists_totals heth hsums.2
  have hone : Ledger.empty.commit (history cs) block =
      (Ledger.empty.plus rpl eth (indices (firsts Ledger.empty.handled (history cs))) block, .ok ()) :=
    commit_of_ok block (by rw [Ledger.empty, hnew]; exact hrplOnce) (by rw [Ledger.empty, hnew]; exact hethOnce)
  have hmany := (commits_ok_iff_from Ledger.empty _ cs).mpr
    ⟨rpls, eths, by rw [Ledger.empty, hcounted]; exact (mapM_addends cs).symm.trans hrpls,
      by rw [Ledger.empty, hcounted]; exact (mapM_addends cs).symm.trans heths, rfl⟩
  have hrplEq : (Ledger.empty.plus rpl eth (indices (firsts Ledger.empty.handled (history cs))) block).rpl = rpl :=
    Wei.zero_add_toEther hrplOnce
  have hethEq : (Ledger.empty.plus rpl eth (indices (firsts Ledger.empty.handled (history cs))) block).eth = eth :=
    Wei.zero_add_toEther hethOnce
  refine ⟨_, _, rpls, eths, hmany, hone, rfl, ?_⟩
  rw [hrplEq, hethEq]
  exact ⟨hrplOnce, hrpls, rfl, hrplClose, hethOnce, heths, rfl, hethClose⟩

/-- An interval of 0.1 RPL and one of 0.2 RPL. -/
def tenths : List Commit :=
  [⟨[{ index := 0, path := "", found := true, collateralRpl := 10 ^ 17 }], 1⟩,
    ⟨[{ index := 1, path := "", found := true, collateralRpl := 2 * 10 ^ 17 }], 2⟩]

/-- Commit by commit what is added in ether is added up. -/
theorem commits_regrouped_tenths : ∃ l one rpls, Ledger.empty.commits tenths = .ok l ∧
    Ledger.empty.commit (history tenths) 2 = (one, .ok ()) ∧ l.handled = one.handled ∧
    Wei.toEther (rplOf (history tenths)) = .ok one.rpl ∧
    (addends (·.collateralRpl) tenths).mapM Wei.toEther = .ok rpls ∧ l.rpl = Double.sum rpls ∧
    Wei.Close (addends (·.collateralRpl) tenths) one.rpl l.rpl :=
  let ⟨l, one, rpls, _, hmany, hone, hhandled, honce, hrpls, hsum, hclose, _⟩ :=
    commits_regrouped tenths 2 (by decide) (by decide) (by decide) (by decide)
  ⟨l, one, rpls, hmany, hone, hhandled, honce, hrpls, hsum, hclose⟩

/-- In two commits they come to 0.30000000000000004 RPL, in one to 0.3 RPL. -/
theorem commits_regrouped_differ :
    (indices (history tenths)).Nodup ∧ (∀ i ∈ history tenths, 0 ≤ i.collateralRpl ∧ 0 ≤ i.smoothingPoolEth) ∧
    rplOf (history tenths) < 2 ^ 256 ∧ ethOf (history tenths) < 2 ^ 256 ∧
    ∃ l one, Ledger.empty.commits tenths = .ok l ∧ Ledger.empty.commit (history tenths) 2 = (one, .ok ()) ∧
      l.rpl = .ofRatio false 30000000000000004 (10 ^ 17) ∧ one.rpl = .ofRatio false 3 10 ∧ ¬ l.rpl ≤ one.rpl := by
  refine ⟨by decide, by decide, by decide, by decide,
    ⟨.ofRatio false 30000000000000004 (10 ^ 17), 0, [0, 1], some 3⟩, ⟨.ofRatio false 3 10, 0, [0, 1], some 3⟩, ?_⟩
  decide +kernel

end NodeGauge.Rewards
