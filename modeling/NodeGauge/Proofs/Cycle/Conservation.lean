/-
  NodeGauge.Proofs.Cycle.Conservation — no interval is lost over the cycles, and none is
  counted on both sides.

  The registry may change between cycles, but it only goes on: its index does not fall and
  a claim is not taken back (`Record.Le`). Reads of it may fail at any time, and a cycle may
  fail or be given up anywhere (`Begins`). The ledger then never holds an interval that is
  not claimed below the index (`begins_held`), and so behind every cycle whose rewards unit
  succeeded the handled intervals and those it summed as unclaimed are apart and together
  are all below the index (`handled_or_unclaimed`).
-/

import NodeGauge.Proofs.Chain.Steady
import NodeGauge.Proofs.Cycle.Ledger

namespace NodeGauge.Cycle

open Job
open NodeGauge.Rewards (reconcile bitmapAt bit isClaimed treeInfo claimStatus named rplOf ethOf split Readable)

/-! ## Cycles one after the other -/

/-- What the registry holds: the first interval that has not ended, and which are claimed. -/
structure Record where
  index : Nat
  claimed : Nat → Bool

/-- The registry has gone on from one record to the other. -/
structure Record.Le (a b : Record) : Prop where
  index : a.index ≤ b.index
  claimed : ∀ i, a.claimed i = true → b.claimed i = true

variable (cfg : Settings) (node : Address)

/-- What can be read of the registry is what the record holds. -/
structure Record.Answers (a : Record) (w : World) : Prop where
  index : ∀ n, (Chain.Client.rewardIndex cfg.network.storage).answer w = .ok n → n = a.index
  claimed : ∀ b word, bitmapAt cfg node.text w b = .ok word → ∀ j < 256, bit word j = a.claimed (256 * b + j)

/-- The worlds a cycle may begin in, with what the registry holds then: the first with an
    empty ledger, and each further one with the ledger left where the cycle before ended or
    was given up. All but the ledger may have changed. -/
inductive Begins : Record → World → Prop where
  | first {a : Record} {w : World} (ha : a.Answers cfg node w) (hl : w.memory.ledger = .empty) : Begins a w
  | next {a b : Record} {w v w' : World} (h : Begins a w) (hc : Reaches (collect cfg node) w v) (hab : a.Le b)
      (hb : b.Answers cfg node w') (hl : w'.memory.ledger = v.memory.ledger) : Begins b w'

variable {cfg node} {a b : Record} {w v : World} {n : Nat} {block : Int}

theorem Begins.answers (h : Begins cfg node a w) : a.Answers cfg node w := by
  cases h with
  | first ha _ => exact ha
  | next _ _ _ hb _ => exact hb

/-- What the unit takes for claimed below the index is claimed. -/
theorem Record.Answers.isClaimed_eq (ha : a.Answers cfg node w) (h : Readable cfg node.text w n block) {k : Nat}
    (hk : k < n) : isClaimed cfg node.text w k = a.claimed k := by
  have hlt : k % 256 < 256 := Nat.mod_lt k (by decide)
  obtain ⟨word, hword⟩ := h.bitmaps (by omega) (k / 256) (Nat.div_le_div_right (by omega))
  have hbit := ha.claimed (k / 256) word hword (k % 256) hlt
  have hk' : 256 * (k / 256) + k % 256 = k := Nat.div_add_mod k 256
  rw [hk'] at hbit
  rw [Rewards.isClaimed_of_bitmap hword (by omega) (by omega), ← hbit]
  congr 1
  omega

/-! ## The ledger holds only what is claimed -/

/-- Every handled interval lies below the index and is claimed. -/
def Held (a : Record) (l : Rewards.Ledger) : Prop := ∀ i ∈ l.handled, ∃ k < a.index, a.claimed k = true ∧ i = k

theorem Held.of_le {l : Rewards.Ledger} (hab : a.Le b) (h : Held a l) : Held b l := by
  intro i hi
  obtain ⟨k, hk, hc, rfl⟩ := h i hi
  exact ⟨k, Nat.lt_of_lt_of_le hk hab.index, hab.claimed k hc, rfl⟩

/-- Whether or not it succeeds, the unit adds only what is due to the handled intervals. -/
theorem handled_of_reconcile {i : Int} (hi : i ∈ ((reconcile cfg node.text).run w).2.memory.ledger.handled) :
    i ∈ w.memory.ledger.handled ∨
      ∃ n block, Readable cfg node.text w n block ∧ i ∈ Rewards.due cfg node.text w n := by
  by_cases hex : ∃ n block, Readable cfg node.text w n block
  · obtain ⟨n, block, h⟩ := hex
    rw [h.run_reconcile.2] at hi
    rcases Rewards.mem_commit_handled hi with hi | hi
    · exact Or.inl hi
    · rw [h.firsts_infos, h.indices_infos] at hi
      exact Or.inr ⟨n, block, h, hi⟩
  · rw [(Rewards.run_of_not_readable hex).2] at hi
    exact Or.inl hi

theorem reconcile_held (ha : a.Answers cfg node w) (h : Held a w.memory.ledger) :
    Held a ((reconcile cfg node.text).run w).2.memory.ledger := by
  intro i hi
  rcases handled_of_reconcile hi with hi | ⟨n, block, hr, hi⟩
  · exact h i hi
  · obtain ⟨k, hk, hc, rfl⟩ := Rewards.mem_claimed.mp (List.mem_filter.mp hi).1
    have hn : n = a.index := ha.index n hr.index
    refine ⟨k, by omega, ?_, rfl⟩
    rw [← ha.isClaimed_eq hr hk]
    exact hc

/-- One cycle keeps it, however it ends or is given up. -/
theorem collect_held (ha : a.Answers cfg node w) (h : Held a w.memory.ledger) (hc : Reaches (collect cfg node) w v) :
    Held a v.memory.ledger := by
  rcases reaches_collect hc with hl | hl
  · rw [hl]
    exact h
  · rw [hl]
    exact reconcile_held ha h

/-- And so any number of them. -/
theorem begins_held (h : Begins cfg node a w) : Held a w.memory.ledger := by
  induction h with
  | first _ hl =>
    rw [hl]
    intro i hi
    cases hi
  | next h hc hab _ hl ih =>
    rw [hl]
    exact (collect_held h.answers ih hc).of_le hab

/-! ## Handled or unclaimed -/

/-- Once the unit has succeeded, handled is what is claimed below the index. -/
theorem mem_handled_iff (ha : a.Answers cfg node w) (hheld : Held a w.memory.ledger)
    (h : Readable cfg node.text w n block) {i : Int} :
    i ∈ w.memory.ledger.handled ++ Rewards.due cfg node.text w n ↔
      ∃ k < n, isClaimed cfg node.text w k = true ∧ i = k := by
  rw [Rewards.mem_handled_due]
  constructor
  · intro hi
    rcases hi with hi | hi
    · obtain ⟨k, hk, hc, rfl⟩ := hheld i hi
      have hn : n = a.index := ha.index n h.index
      have hkn : k < n := by omega
      exact ⟨k, hkn, (ha.isClaimed_eq h hkn).trans hc, rfl⟩
    · exact hi
  · exact Or.inr

/-- Behind a cycle whose rewards unit succeeded, each interval below the reward index is
    either handled or among those the unit summed as unclaimed, and nothing else is either.
    If the cycle emits, these sums and the totals of that ledger are what it emits. -/
theorem handled_or_unclaimed {x : Except Fault (Option Metrics)} {basis : Basis} {u : Rewards.Unclaimed}
    (hbegins : Begins cfg node a w) (hready : basis? node w.memory = some basis)
    (hunit : (reconcile cfg node.text).answer w = .ok u) (hends : Ends (collect cfg node) w x v) :
    ∃ n status, (Chain.Client.rewardIndex cfg.network.storage).answer w = .ok n ∧
      (claimStatus cfg node.text).answer w = .ok status ∧
      Wei.toEther (rplOf (named cfg node.text w status.unclaimed)) = .ok u.rpl ∧
      Wei.toEther (ethOf (named cfg node.text w status.unclaimed)) = .ok u.eth ∧
      (∀ i ∈ v.memory.ledger.handled, i ∉ status.unclaimed) ∧
      (∀ i, (i ∈ v.memory.ledger.handled ∨ i ∈ status.unclaimed) ↔ 0 ≤ i ∧ i < n) ∧
      ∀ m, x = .ok (some m) → Tells m u v.memory.ledger := by
  obtain ⟨n, block, h, hur, hue, rpl, eth, -, -, hl⟩ := (Rewards.reconcile_ok_ledger_iff w u _).mp ⟨hunit, rfl⟩
  rcases ends_collect hends with ⟨hnone, -⟩ | ⟨_, -, hv, he⟩
  · rw [hready] at hnone
    cases hnone
  · have hmem : ∀ i, i ∈ v.memory.ledger.handled ↔ ∃ k < n, isClaimed cfg node.text w k = true ∧ i = k := by
      intro i
      rw [hv, hl]
      exact mem_handled_iff hbegins.answers (begins_held hbegins) h
    refine ⟨n, split (isClaimed cfg node.text w) 0 n, h.index,
      (Rewards.claimStatus_ok_iff ..).mpr ⟨n, h.index, h.bitmaps, rfl⟩, hur, hue, ?_, ?_, ?_⟩
    · intro i hi hu
      obtain ⟨k, -, hc, rfl⟩ := (hmem i).mp hi
      obtain ⟨k', -, hc', hk⟩ := Rewards.mem_unclaimed.mp hu
      obtain rfl : k = k' := Int.ofNat.inj hk
      rw [hc] at hc'
      cases hc'
    · intro i
      rw [hmem, Rewards.mem_unclaimed]
      constructor
      · intro hi
        rcases hi with ⟨k, hk, -, rfl⟩ | ⟨k, hk, -, rfl⟩ <;> omega
      · intro ⟨h0, hn⟩
        obtain ⟨k, rfl⟩ := Int.eq_ofNat_of_zero_le h0
        cases hc : isClaimed cfg node.text w k with
        | true => exact Or.inl ⟨k, by omega, hc, rfl⟩
        | false => exact Or.inr ⟨k, by omega, hc, rfl⟩
    · intro m hm
      obtain ⟨u', hu', ht⟩ := he m hm
      cases hunit.symm.trans hu'
      exact ht

/-! ### A second cycle -/

def firstNode : Address := Address.ofNat 1

def firstSnapshot : Snapshot where
  block := 100
  network := ⟨0, 0, 0, 0, 0⟩
  nodes := [(firstNode, ⟨0, 0, 0, 0, 0, 0, 0⟩)]
  minipools := []
  validators := []

/-- Two intervals have ended, the second is claimed, and no tree names a node. -/
def firstWorld (l : Rewards.Ledger) : World where
  outside := {
    chain := { latestBlock := .ok 100, read := fun _ _ _ => .ok (Chain.word 2) }
    beacon := fun _ _ => .outage .connection
    files := fun _ => .ok (Text.toUtf8 "\x7b\x7d") }
  memory := { snapshot := some firstSnapshot, total := some 0, ledger := l }

theorem firstWorld_steady (l : Rewards.Ledger) : Chain.Steady (firstWorld l).outside.chain 2 :=
  ⟨⟨Chain.word 2, fun _ _ _ => rfl, by decide +kernel, Address.ofNat 2, by decide +kernel⟩⟩

theorem firstWorld_bitmap (l : Rewards.Ledger) (b : Nat) : bitmapAt {} firstNode.text (firstWorld l) b = .ok 2 :=
  (firstWorld_steady l).claimedBitmap ..

theorem firstWorld_tree (l : Rewards.Ledger) (i : Int) :
    ∃ info, treeInfo {} firstNode.text (firstWorld l) i = some info ∧ info.listed = false := by
  have hf : ∀ path, (firstWorld l).outside.files path = .ok (Text.toUtf8 "\x7b\x7d") := fun _ => rfl
  have hj : Json.ofBytes (Text.toUtf8 "\x7b\x7d") = .ok (.object []) := by rfl
  unfold treeInfo
  simp only [hf, hj]
  exact ⟨_, rfl, rfl⟩

theorem firstWorld_readable (l : Rewards.Ledger) : Readable {} firstNode.text (firstWorld l) 2 100 where
  index := (firstWorld_steady l).rewardIndex _
  bitmaps := fun _ b _ => ⟨2, firstWorld_bitmap l b⟩
  trees := by
    intro i _ _
    obtain ⟨info, hi, -⟩ := firstWorld_tree l i
    exact Option.isSome_of_eq_some hi
  block := rfl

theorem firstWorld_named (l : Rewards.Ledger) (intervals : List Int) :
    named {} firstNode.text (firstWorld l) intervals = [] := by
  unfold named
  rw [List.filter_eq_nil_iff]
  intro info hi
  obtain ⟨i, _, hi⟩ := List.mem_filterMap.mp hi
  obtain ⟨info', hi', hl⟩ := firstWorld_tree l i
  rw [hi] at hi'
  cases hi'
  simp [hl]

theorem firstWorld_sums (l : Rewards.Ledger) : Rewards.sums {} firstNode.text (firstWorld l) 2 = ⟨0, 0, 0, 0⟩ := by
  unfold Rewards.sums
  simp only [firstWorld_named]
  rfl

theorem firstWorld_unit (l : Rewards.Ledger) : (reconcile {} firstNode.text).answer (firstWorld l) = .ok ⟨0, 0⟩ := by
  have hz : Wei.toEther 0 = .ok 0 := by decide +kernel
  let l' := (firstWorld l).memory.ledger.plus 0 0 (Rewards.due {} firstNode.text (firstWorld l) 2) 100
  refine ((Rewards.reconcile_ok_ledger_iff (firstWorld l) ⟨0, 0⟩ l').mpr ⟨2, 100, firstWorld_readable l, ?_⟩).1
  rw [firstWorld_sums]
  exact ⟨hz, hz, 0, 0, hz, hz, rfl⟩

/-- What the registry of that world holds. -/
def firstRecord : Record := ⟨2, fun i => bit 2 (i % 256)⟩

theorem firstRecord_answers (l : Rewards.Ledger) : firstRecord.Answers {} firstNode (firstWorld l) where
  index := fun n h => (Except.ok.inj (((firstWorld_steady l).rewardIndex _).symm.trans h)).symm
  claimed := by
    intro b word h j hj
    cases (firstWorld_bitmap l b).symm.trans h
    have hm : (256 * b + j) % 256 = j := by omega
    simp only [firstRecord, hm]
    rfl

/-- Behind the second of two cycles, though the beacon node is down in both. -/
theorem handled_or_unclaimed_twice :
    ∃ x v, Ends (collect {} firstNode) (firstWorld .empty) x v ∧
      ∃ x' v', Ends (collect {} firstNode) (firstWorld v.memory.ledger) x' v' ∧
        ∃ n status, (claimStatus {} firstNode.text).answer (firstWorld v.memory.ledger) = .ok status ∧
          (∀ i ∈ v'.memory.ledger.handled, i ∉ status.unclaimed) ∧
          ∀ i, (i ∈ v'.memory.ledger.handled ∨ i ∈ status.unclaimed) ↔ 0 ≤ i ∧ i < (n : Int) := by
  obtain ⟨x, v, h⟩ := exists_ends_collect (w := firstWorld .empty) {} firstNode rfl
  obtain ⟨x', v', h'⟩ := exists_ends_collect (w := firstWorld v.memory.ledger) {} firstNode rfl
  have hbegins : Begins {} firstNode firstRecord (firstWorld v.memory.ledger) :=
    .next (.first (firstRecord_answers .empty) rfl) h.reaches ⟨Nat.le_refl _, fun _ hc => hc⟩
      (firstRecord_answers v.memory.ledger) rfl
  have hready : basis? firstNode (firstWorld v.memory.ledger).memory =
      some ⟨firstSnapshot, 0, ⟨0, 0, 0, 0, 0, 0, 0⟩, []⟩ := rfl
  obtain ⟨n, status, -, hs, -, -, hd, hc, -⟩ := handled_or_unclaimed hbegins hready (firstWorld_unit _) h'
  exact ⟨x, v, h, x', v', h', n, status, hs, hd, hc⟩

end NodeGauge.Cycle
