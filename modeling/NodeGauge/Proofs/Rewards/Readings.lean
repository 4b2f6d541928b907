/-
  NodeGauge.Proofs.Rewards.Readings — what the rewards unit finds out, read off the world
  it begins in. Its jobs look at the chain, the files and the ledger and change none of
  them (`Looks`); the reward index also finds the contract and keeps its address
  (`Seeks`). So each looks at a world that is `Alike` the first one, and a sequence of
  them succeeds when each alone would (`answer_bind_ok`).

  From that, when each job of the unit succeeds and with what: `claimStatus_ok_iff`,
  `newlyClaimed_ok_iff`, `unclaimedSums_ok_iff`.
-/

import NodeGauge.Proofs.Job.Footprint
import NodeGauge.Proofs.Json.Integers
import NodeGauge.Proofs.Rewards.Buckets
import NodeGauge.Proofs.Rewards.Commits
import NodeGauge.Rewards.Reconcile

namespace NodeGauge.Rewards

open Job

/-! ## Looking -/

/-- Does a call ask a minipool for the node's share of a balance? -/
def AsksShare (data : Bytes) : Prop := data.take 4 = (Chain.calculateNodeShare 0).take 4

/-- Asks that change nothing, answered by the outside and the ledger; none of them is for
    a node's share. -/
def Looks : Ask → Prop
  | .call (.read _ data _) => ¬ AsksShare data
  | .call .latestBlock | .file _ | .ledger => True
  | _ => False

/-- These and the asks for the contract that pays the rewards. -/
def Seeks : Ask → Prop
  | .rewardsPool | .keepRewardsPool _ => True
  | q => Looks q

/-- Worlds that answer whatever is looked at alike. -/
def Alike (w v : World) : Prop := v.outside = w.outside ∧ v.memory.ledger = w.memory.ledger

theorem seeks_of_looks (q : Ask) (h : Looks q) : Seeks q := by
  cases q <;> first | exact h | trivial

theorem alike_after {w v : World} {q : Ask} (h : Seeks q) (hv : Alike w v) : Alike w (v.after q) := by
  cases q <;> first | exact hv | exact h.elim

theorem reply_of_alike {w v : World} {q : Ask} (h : Looks q) (hv : Alike w v) : q.reply v = q.reply w := by
  obtain ⟨ho, hl⟩ := hv
  cases q with
  | call c => cases c <;> simp only [Ask.reply, ho]
  | file path => simp only [Ask.reply, ho]
  | ledger => exact hl
  | _ => exact h.elim

variable {α β : Type} {w v : World}

theorem run_alike {j : Job α} (hj : j.Straight Seeks) : Alike w (j.run w).2 :=
  run_keeps (I := Alike w) (fun _ _ => alike_after) hj.uses ⟨rfl, rfl⟩

theorem answer_of_alike {j : Job α} (hj : j.Straight Looks) (h : Alike w v) : j.answer v = j.answer w := by
  refine (run_congr (R := fun v w => Alike w v) (fun q v w hq hv => ?_) hj.uses h).1
  obtain ⟨h1, h2⟩ := alike_after (seeks_of_looks q hq) hv
  exact ⟨reply_of_alike hq hv, h1.trans rfl, h2.trans (by cases q <;> first | rfl | exact hq.elim)⟩

/-- In a sequence of looks each one answers as it would in the world at the start. -/
theorem answer_bind {j : Job α} {f : α → Job β} (hj : j.Straight Seeks) (hf : ∀ a, (f a).Straight Looks) :
    (j >>= f).answer w = (j.answer w).bind fun a => (f a).answer w := by
  show ((j.bind f).run w).1 = ((j.run w).1).bind fun a => (f a).answer w
  rw [run_bind]
  have hw : Alike w (j.run w).2 := run_alike hj
  generalize j.run w = r at hw ⊢
  obtain ⟨x, v⟩ := r
  cases x with
  | error e => rfl
  | ok a => exact answer_of_alike (hf a) hw

theorem answer_bind_ok {j : Job α} {f : α → Job β} {b : β} (hj : j.Straight Seeks) (hf : ∀ a, (f a).Straight Looks) :
    (j >>= f).answer w = .ok b ↔ ∃ a, j.answer w = .ok a ∧ (f a).answer w = .ok b := by
  rw [answer_bind hj hf]
  cases j.answer w with
  | error e => simp [Except.bind]
  | ok a => simp [Except.bind]

@[simp] theorem answer_pure {a : α} {b : α} : (pure a : Job α).answer w = .ok b ↔ a = b := by
  show (Except.ok a : Except Fault α) = .ok b ↔ a = b
  simp

theorem answer_map_ok {j : Job α} (g : α → β) {b : β} (hj : j.Straight Looks) :
    (do return g (← j) : Job β).answer w = .ok b ↔ ∃ a, j.answer w = .ok a ∧ b = g a := by
  rw [answer_bind_ok (hj.mono seeks_of_looks)]
  · exact exists_congr fun a => and_congr_right fun _ => answer_pure.trans eq_comm
  · exact fun _ => trivial

theorem answer_ledger {f : Rewards.Ledger → Job β} (hf : ∀ l, (f l).Straight Looks) :
    (send .ledger >>= f).answer w = (f w.memory.ledger).answer w :=
  answer_bind (straight_send trivial) hf

/-! ## What each job asks -/

variable (cfg : Settings) (node : Text)

theorem latestBlock_straight {P : Ask → Prop} (h : P (.call .latestBlock)) : Chain.Client.latestBlock.Straight P :=
  straight_bind (straight_send h) fun r => by cases r <;> trivial

theorem bytesOf_straight {P : Ask → Prop} {contract : Address} {data : Bytes} {block : Chain.BlockTag}
    (h : P (.call (.read contract data block))) : (Chain.Client.bytesOf contract data block).Straight P :=
  straight_bind (straight_send h) fun r => by cases r <;> trivial

theorem numberOf_straight {P : Ask → Prop} {contract : Address} {data : Bytes} {block : Chain.BlockTag}
    (h : P (.call (.read contract data block))) : (Chain.Client.numberOf contract data block).Straight P :=
  straight_bind (bytesOf_straight h) fun _ => straight_ofExcept _

theorem latestBlock_looks : Chain.Client.latestBlock.Straight Looks := latestBlock_straight trivial

theorem not_asksShare_getAddress (key : Bytes) : ¬ AsksShare (Chain.getAddress key) := by
  simp [AsksShare, Chain.getAddress, Chain.calculateNodeShare]

theorem not_asksShare_getUint (key : Bytes) : ¬ AsksShare (Chain.getUint key) := by
  simp [AsksShare, Chain.getUint, Chain.calculateNodeShare]

theorem not_asksShare_getRewardIndex : ¬ AsksShare Chain.getRewardIndex := by
  simp [AsksShare, Chain.getRewardIndex, Chain.calculateNodeShare]

theorem claimedBitmap_looks (storage : Address) (bucket : Int) :
    (Chain.Client.claimedBitmap storage node bucket).Straight Looks :=
  straight_bind (straight_ofExcept _) fun _ => numberOf_straight (not_asksShare_getUint _)

theorem rewardsPool_straight {P : Ask → Prop} {storage : Address} (hpool : P .rewardsPool)
    (hcall : P (.call (.read storage (Chain.getAddress Chain.rewardsPoolKey) .latest)))
    (hkeep : ∀ a, P (.keepRewardsPool a)) : (Chain.Client.rewardsPool storage).Straight P := by
  refine straight_bind (straight_send hpool) fun kept => ?_
  cases kept with
  | some a => trivial
  | none =>
    refine straight_bind (bytesOf_straight hcall) fun bytes => ?_
    exact straight_bind (straight_ofExcept _) fun a => straight_bind (straight_send (hkeep a)) fun _ => trivial

theorem rewardsPool_seeks (storage : Address) : (Chain.Client.rewardsPool storage).Straight Seeks :=
  rewardsPool_straight trivial (not_asksShare_getAddress _) fun _ => trivial

theorem rewardIndex_rest_looks (pool : Address) :
    (Chain.Client.numberOf pool Chain.getRewardIndex .latest).Straight Looks :=
  numberOf_straight not_asksShare_getRewardIndex

theorem rewardIndex_seeks (storage : Address) : (Chain.Client.rewardIndex storage).Straight Seeks :=
  straight_bind (rewardsPool_seeks storage) fun pool => (rewardIndex_rest_looks pool).mono seeks_of_looks

theorem claimsFrom_looks (index left bucket : Nat) : (claimsFrom cfg node index left bucket).Straight Looks := by
  induction left generalizing bucket with
  | zero => trivial
  | succ left ih => exact straight_bind (claimedBitmap_looks ..) fun word => straight_bind (ih _) fun rest => trivial

theorem claimStatus_rest_looks (index : Nat) :
    (if index = 0 then pure .empty else claimsFrom cfg node index (index / bucketSize + 1) 0 : Job ClaimStatus).Straight
      Looks := by
  split
  · trivial
  · exact claimsFrom_looks ..

theorem claimStatus_seeks : (claimStatus cfg node).Straight Seeks :=
  straight_bind (rewardIndex_seeks _) fun n => (claimStatus_rest_looks cfg node n).mono seeks_of_looks

theorem intervalInfo_looks (interval : Int) : (intervalInfo cfg node interval).Straight Looks :=
  straight_bind (straight_send trivial) fun _ => straight_ofExcept _

theorem resolved_rest_looks (claimed : Bool) (interval : Int) (info : IntervalInfo) :
    (if info.found then pure info else .fail (.treeMissing info.path interval claimed) : Job IntervalInfo).Straight
      Looks := by
  split <;> trivial

theorem resolved_looks (claimed : Bool) (interval : Int) : (resolved cfg node claimed interval).Straight Looks :=
  straight_bind (intervalInfo_looks ..) fun _ => resolved_rest_looks ..

theorem newlyClaimed_rest_looks {cfg : Settings} {node : Text} {i : Int} {rest : List Int}
    (h : (newlyClaimed cfg node rest).Straight Looks) (l : Ledger) :
    (if l.isHandled i then newlyClaimed cfg node rest else do
      let info ← resolved cfg node true i
      return info :: (← newlyClaimed cfg node rest) : Job (List IntervalInfo)).Straight Looks := by
  split
  · exact h
  · exact straight_bind (resolved_looks ..) fun _ => straight_bind h fun _ => trivial

theorem newlyClaimed_looks (intervals : List Int) : (newlyClaimed cfg node intervals).Straight Looks := by
  induction intervals with
  | nil => trivial
  | cons i rest ih => exact straight_bind (straight_send trivial) (newlyClaimed_rest_looks ih)

theorem unclaimedSums_looks (intervals : List Int) : (unclaimedSums cfg node intervals).Straight Looks := by
  induction intervals with
  | nil => trivial
  | cons i rest ih => exact straight_bind (resolved_looks ..) fun info => straight_bind ih fun sums => trivial

/-! ## What there is to read -/

/-- The bits of a bucket, as the registry answers now. -/
def bitmapAt (w : World) (bucket : Nat) : Except Fault Nat :=
  (Chain.Client.claimedBitmap cfg.network.storage node bucket).answer w

/-- The interval's bit; a bitmap that cannot be read has none. -/
def isClaimed (w : World) (i : Nat) : Bool :=
  match bitmapAt cfg node w (i / 256) with
  | .ok word => bit word (i % 256)
  | .error _ => false

/-- What the interval's tree says about the node, if there is a tree and it can be understood. -/
def treeInfo (w : World) (i : Int) : Option IntervalInfo :=
  match w.outside.files (treePath cfg.network.treeName cfg.treesDir i) with
  | .error _ => none
  | .ok bytes => match Json.ofBytes bytes with
    | .error _ => none
    | .ok tree => (parseTree node i (treePath cfg.network.treeName cfg.treesDir i) tree).toOption

theorem isClaimed_of_bitmap {cfg : Settings} {node : Text} {b word i : Nat} (h : bitmapAt cfg node w b = .ok word)
    (h1 : 256 * b ≤ i) (h2 : i < 256 * b + 256) : isClaimed cfg node w i = bit word (i - 256 * b) := by
  have hb : i / 256 = b := by omega
  have hi : i % 256 = i - 256 * b := by omega
  simp only [isClaimed, hb, h, hi]

/-! ## The claims -/

theorem claimsFrom_succ_ok_iff (index left bucket : Nat) (s : ClaimStatus) :
    (claimsFrom cfg node index (left + 1) bucket).answer w = .ok s ↔
      ∃ word, bitmapAt cfg node w bucket = .ok word ∧
        ∃ rest, (claimsFrom cfg node index left (bucket + 1)).answer w = .ok rest ∧
          s = decodeBitmap word bucket index ++ rest := by
  show (do
    let word ← Chain.Client.claimedBitmap cfg.network.storage node bucket
    let rest ← claimsFrom cfg node index left (bucket + 1)
    return decodeBitmap word bucket index ++ rest : Job ClaimStatus).answer w = .ok s ↔ _
  rw [answer_bind_ok ((claimedBitmap_looks ..).mono seeks_of_looks)]
  · refine exists_congr fun word => and_congr_right fun _ => ?_
    rw [answer_map_ok _ (claimsFrom_looks ..)]
  · exact fun word => straight_bind (claimsFrom_looks ..) fun rest => trivial

/-- The intervals of a bucket, and those of the buckets after it. A bucket that the index
    ends in leaves nothing for those after it. -/
theorem decodeBitmap_append {cfg : Settings} {node : Text} {bucket word : Nat}
    (h : bitmapAt cfg node w bucket = .ok word) (index left : Nat) :
    decodeBitmap word bucket index ++
        split (isClaimed cfg node w) (256 * (bucket + 1)) (min (256 * left) (index - 256 * (bucket + 1))) =
      split (isClaimed cfg node w) (256 * bucket) (min (256 * (left + 1)) (index - 256 * bucket)) := by
  rw [decodeBitmap_eq, split_congr (d := isClaimed cfg node w) fun i h1 h2 =>
    (isClaimed_of_bitmap h h1 (by omega)).symm]
  by_cases hlong : 256 ≤ index - 256 * bucket
  · have hm : min 256 (index - 256 * bucket) = 256 := by omega
    have hn : 256 + min (256 * left) (index - 256 * (bucket + 1)) =
        min (256 * (left + 1)) (index - 256 * bucket) := by omega
    rw [hm, Nat.mul_add, Nat.mul_one, split_append, ← hn, Nat.mul_add, Nat.mul_one]
  · have hm : min 256 (index - 256 * bucket) = min (256 * (left + 1)) (index - 256 * bucket) := by omega
    have hn : min (256 * left) (index - 256 * (bucket + 1)) = 0 := by omega
    rw [hm, hn, split_zero,
      ← split_zero (isClaimed cfg node w) (256 * bucket + min (256 * (left + 1)) (index - 256 * bucket)),
      split_append, Nat.add_zero]

theorem claimsFrom_ok_iff (index left bucket : Nat) (s : ClaimStatus) :
    (claimsFrom cfg node index left bucket).answer w = .ok s ↔
      (∀ b, bucket ≤ b → b < bucket + left → ∃ word, bitmapAt cfg node w b = .ok word) ∧
        s = split (isClaimed cfg node w) (256 * bucket) (min (256 * left) (index - 256 * bucket)) := by
  induction left generalizing bucket s with
  | zero =>
    show (pure ClaimStatus.empty : Job ClaimStatus).answer w = .ok s ↔ _
    rw [answer_pure, Nat.mul_zero, Nat.zero_min, split_zero, eq_comm]
    exact ⟨fun h => ⟨fun b h1 h2 => by omega, h⟩, fun h => h.2⟩
  | succ left ih =>
    rw [claimsFrom_succ_ok_iff]
    constructor
    · intro h
      obtain ⟨word, hword, rest, hrest, rfl⟩ := h
      obtain ⟨hall, rfl⟩ := (ih _ _).mp hrest
      refine ⟨fun b h1 h2 => ?_, decodeBitmap_append hword index left⟩
      rcases Nat.eq_or_lt_of_le h1 with rfl | hlt
      · exact ⟨word, hword⟩
      · exact hall b hlt (by omega)
    · intro h
      obtain ⟨hall, rfl⟩ := h
      obtain ⟨word, hword⟩ := hall bucket (Nat.le_refl _) (by omega)
      have hrest : ∀ b, bucket + 1 ≤ b → b < bucket + 1 + left → ∃ word, bitmapAt cfg node w b = .ok word :=
        fun b h1 h2 => hall b (by omega) (by omega)
      exact ⟨word, hword, _, (ih _ _).mpr ⟨hrest, rfl⟩, (decodeBitmap_append hword index left).symm⟩

/-- The claims are known when the index is and, unless it is 0, every bitmap up to that of
    the index itself. Then each interval below the index is on the side its bit says. -/
theorem claimStatus_ok_iff (s : ClaimStatus) :
    (claimStatus cfg node).answer w = .ok s ↔
      ∃ n, (Chain.Client.rewardIndex cfg.network.storage).answer w = .ok n ∧
        (n ≠ 0 → ∀ b ≤ n / 256, ∃ word, bitmapAt cfg node w b = .ok word) ∧ s = split (isClaimed cfg node w) 0 n := by
  unfold claimStatus
  rw [answer_bind_ok (rewardIndex_seeks _) (claimStatus_rest_looks cfg node)]
  refine exists_congr fun n => and_congr_right fun _ => ?_
  by_cases h : n = 0
  · rw [if_pos h, answer_pure, h, split_zero, eq_comm]
    exact ⟨fun hs => ⟨fun h0 => absurd rfl h0, hs⟩, fun hs => hs.2⟩
  · have hcount : min (256 * (n / bucketSize + 1)) (n - 256 * 0) = n := by
      simp only [bucketSize]
      omega
    rw [if_neg h, claimsFrom_ok_iff, hcount]
    refine and_congr_left fun _ => ⟨fun hall _ b hb => hall b (Nat.zero_le b) ?_, fun hall b _ hb => hall h b ?_⟩
    · simp only [bucketSize]
      omega
    · simp only [bucketSize] at hb
      omega

/-! ## The trees -/

/-- A tree that does not name the node tells of no amounts. -/
theorem parseTree_ok {node : Text} {i : Int} {path : Text} {tree : Json} {info : IntervalInfo}
    (h : parseTree node i path tree = .ok info) :
    info.found = true ∧ info.index = i ∧
      (info.listed = false → info.collateralRpl = 0 ∧ info.smoothingPoolEth = 0) := by
  unfold parseTree at h
  obtain ⟨_, _, h⟩ := except_bind_ok.mp h
  obtain ⟨entries, _, h⟩ := except_bind_ok.mp h
  cases he : entryOf node entries with
  | none =>
    simp only [he] at h
    obtain ⟨_, _, h⟩ := except_bind_ok.mp h
    cases h
    exact ⟨rfl, rfl, fun _ => ⟨rfl, rfl⟩⟩
  | some entry =>
    simp only [he] at h
    obtain ⟨rpl, _, h⟩ := except_bind_ok.mp h
    obtain ⟨dao, _, h⟩ := except_bind_ok.mp h
    obtain ⟨eth, _, h⟩ := except_bind_ok.mp h
    obtain ⟨root, _, h⟩ := except_bind_ok.mp h
    obtain ⟨_, _, h⟩ := except_bind_ok.mp h
    obtain ⟨proof, _, h⟩ := except_bind_ok.mp h
    cases h
    exact ⟨rfl, rfl, fun hl => nomatch hl⟩

theorem toOption_eq_some {x : Except Fault α} {a : α} : x.toOption = some a ↔ x = .ok a := by
  cases x <;> simp [Except.toOption]

theorem treeInfo_congr (h : w.outside.files = v.outside.files) : treeInfo cfg node w = treeInfo cfg node v := by
  unfold treeInfo
  rw [h]

theorem treeInfo_eq_some {cfg : Settings} {node : Text} {i : Int} {info : IntervalInfo}
    (h : treeInfo cfg node w i = some info) :
    ∃ tree, parseTree node i (treePath cfg.network.treeName cfg.treesDir i) tree = .ok info := by
  unfold treeInfo at h
  split at h
  · cases h
  · split at h
    · cases h
    · exact ⟨_, toOption_eq_some.mp h⟩

theorem treeInfo_index {cfg : Settings} {node : Text} {i : Int} {info : IntervalInfo}
    (h : treeInfo cfg node w i = some info) : info.index = i := by
  obtain ⟨_, ht⟩ := treeInfo_eq_some h
  exact (parseTree_ok ht).2.1

theorem treeInfo_unlisted {cfg : Settings} {node : Text} {i : Int} {info : IntervalInfo}
    (h : treeInfo cfg node w i = some info) (hl : info.listed = false) :
    info.collateralRpl = 0 ∧ info.smoothingPoolEth = 0 := by
  obtain ⟨_, ht⟩ := treeInfo_eq_some h
  exact (parseTree_ok ht).2.2 hl

theorem indices_filterMap {cfg : Settings} {node : Text} {intervals : List Int}
    (h : ∀ i ∈ intervals, (treeInfo cfg node w i).isSome) :
    indices (intervals.filterMap (treeInfo cfg node w)) = intervals := by
  induction intervals with
  | nil => rfl
  | cons i rest ih =>
    obtain ⟨info, hi⟩ := Option.isSome_iff_exists.mp (h i (List.mem_cons_self ..))
    rw [List.filterMap_cons_some hi, indices_cons, treeInfo_index hi, ih fun j hj => h j (List.mem_cons_of_mem _ hj)]

theorem intervalInfo_answer (i : Int) :
    (intervalInfo cfg node i).answer w =
      intervalOf node i (treePath cfg.network.treeName cfg.treesDir i)
        (w.outside.files (treePath cfg.network.treeName cfg.treesDir i)) :=
  congrArg Prod.fst (run_ofExcept _ _)

/-- An interval is resolved when its tree is there and can be understood. -/
theorem resolved_ok_iff (claimed : Bool) (i : Int) (info : IntervalInfo) :
    (resolved cfg node claimed i).answer w = .ok info ↔ treeInfo cfg node w i = some info := by
  unfold resolved treeInfo
  rw [answer_bind_ok ((intervalInfo_looks ..).mono seeks_of_looks) (resolved_rest_looks claimed i),
    intervalInfo_answer]
  generalize treePath cfg.network.treeName cfg.treesDir i = path
  cases hf : w.outside.files path with
  | error f => cases f <;> simp [intervalOf, answer, run]
  | ok bytes =>
    cases hj : Json.ofBytes bytes with
    | error f => simp [intervalOf, hj]
    | ok tree =>
      cases hp : parseTree node i path tree with
      | error f => simp [intervalOf, hj, hp, Except.toOption]
      | ok parsed => simp [intervalOf, hj, hp, Except.toOption, (parseTree_ok hp).1]

/-! ## The intervals -/

theorem newlyClaimed_ok_iff (intervals : List Int) (infos : List IntervalInfo) :
    (newlyClaimed cfg node intervals).answer w = .ok infos ↔
      (∀ i ∈ intervals, w.memory.ledger.isHandled i = false → (treeInfo cfg node w i).isSome) ∧
        infos = (intervals.filter fun i => !w.memory.ledger.isHandled i).filterMap (treeInfo cfg node w) := by
  induction intervals generalizing infos with
  | nil =>
    show (pure [] : Job (List IntervalInfo)).answer w = .ok infos ↔ _
    rw [answer_pure]
    exact ⟨fun h => ⟨fun i hi => absurd hi List.not_mem_nil, h.symm⟩, fun h => h.2.symm⟩
  | cons i rest ih =>
    show (send .ledger >>= _ : Job (List IntervalInfo)).answer w = .ok infos ↔ _
    rw [answer_ledger (newlyClaimed_rest_looks (newlyClaimed_looks ..))]
    by_cases h : w.memory.ledger.isHandled i = true
    · rw [if_pos h, ih]
      simp [h]
    · rw [if_neg h, answer_bind_ok ((resolved_looks ..).mono seeks_of_looks)]
      · simp only [resolved_ok_iff, answer_map_ok _ (newlyClaimed_looks cfg node rest), ih]
        cases ht : treeInfo cfg node w i with
        | none => simp [ht, h]
        | some info => simp [ht, h]
      · exact fun _ => straight_bind (newlyClaimed_looks ..) fun _ => trivial

theorem unclaimedSums_ok_iff (intervals : List Int) (rpl eth : Wei) :
    (unclaimedSums cfg node intervals).answer w = .ok (rpl, eth) ↔
      (∀ i ∈ intervals, (treeInfo cfg node w i).isSome) ∧
        rpl = rplOf ((intervals.filterMap (treeInfo cfg node w)).filter (·.listed)) ∧
        eth = ethOf ((intervals.filterMap (treeInfo cfg node w)).filter (·.listed)) := by
  induction intervals generalizing rpl eth with
  | nil =>
    show (pure (0, 0) : Job (Wei × Wei)).answer w = .ok (rpl, eth) ↔ _
    rw [answer_pure]
    constructor
    · intro h
      cases h
      exact ⟨fun i hi => absurd hi List.not_mem_nil, rfl, rfl⟩
    · intro h
      obtain ⟨-, rfl, rfl⟩ := h
      rfl
  | cons i rest ih =>
    show (resolved cfg node false i >>= _ : Job (Wei × Wei)).answer w = .ok (rpl, eth) ↔ _
    rw [answer_bind_ok ((resolved_looks ..).mono seeks_of_looks)]
    · simp only [resolved_ok_iff, answer_map_ok _ (unclaimedSums_looks cfg node rest)]
      cases ht : treeInfo cfg node w i with
      | none => simp [ht]
      | some info =>
        cases hl : info.listed with
        | false => simp [ht, hl, ih]
        | true => simp [ht, hl, ih]
    · exact fun _ => straight_bind (unclaimedSums_looks ..) fun _ => trivial

end NodeGauge.Rewards
