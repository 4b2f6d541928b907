/-
  NodeGauge.Proofs.Rewards.Partition — the claims as a partition. A status splits intervals
  when both its sides are in strict order and apart, when together they hold these
  intervals and no other, and when each is on the side that its bit says (`Splits`). One
  status alone does so (`Splits.unique`), so this tells all there is to tell about it.

  `claimStatus_splits`: the claims that are read of the chain split the intervals below the
  reward index by the bits of the bitmaps, whatever bits stand from the index on. One
  bitmap, any integer in two's complement, splits those of its bucket below the index.
-/

import Mathlib.Data.Int.Bitwise
import Mathlib.Data.List.Sort
import NodeGauge.Proofs.Rewards.Readings

namespace NodeGauge.Rewards

/-- The status splits the intervals of `p` by `claimed`. -/
structure ClaimStatus.Splits (s : ClaimStatus) (p claimed : Int → Prop) : Prop where
  claimed_sorted : s.claimed.Pairwise (· < ·)
  unclaimed_sorted : s.unclaimed.Pairwise (· < ·)
  apart : ∀ i ∈ s.claimed, i ∉ s.unclaimed
  all : ∀ i, (i ∈ s.claimed ∨ i ∈ s.unclaimed) ↔ p i
  side : ∀ i, p i → (i ∈ s.claimed ↔ claimed i)

namespace ClaimStatus.Splits

variable {s t : ClaimStatus} {p q c d : Int → Prop}

theorem mem_claimed_iff (h : s.Splits p c) (i : Int) : i ∈ s.claimed ↔ p i ∧ c i := by
  constructor
  · intro hi
    have hp := (h.all i).mp (Or.inl hi)
    exact ⟨hp, (h.side i hp).mp hi⟩
  · intro hi
    obtain ⟨hp, hc⟩ := hi
    exact (h.side i hp).mpr hc

theorem mem_unclaimed_iff (h : s.Splits p c) (i : Int) : i ∈ s.unclaimed ↔ p i ∧ ¬ c i := by
  constructor
  · intro hi
    have hp := (h.all i).mp (Or.inr hi)
    refine ⟨hp, fun hc => ?_⟩
    exact h.apart i ((h.side i hp).mpr hc) hi
  · intro hi
    obtain ⟨hp, hc⟩ := hi
    rcases (h.all i).mpr hp with hi | hi
    · exact absurd ((h.side i hp).mp hi) hc
    · exact hi

/-- No two statuses split the same intervals by the same bits. -/
theorem unique (h : s.Splits p c) (h' : t.Splits p c) : s = t := by
  have hu : s.unclaimed = t.unclaimed := by
    apply h.unclaimed_sorted.eq_of_mem_iff h'.unclaimed_sorted
    intro i
    rw [h.mem_unclaimed_iff, h'.mem_unclaimed_iff]
  have hc : s.claimed = t.claimed := by
    apply h.claimed_sorted.eq_of_mem_iff h'.claimed_sorted
    intro i
    rw [h.mem_claimed_iff, h'.mem_claimed_iff]
  cases s
  cases t
  simp only at hu hc
  rw [hu, hc]

theorem congr (h : s.Splits p c) (hp : ∀ i, p i ↔ q i) (hc : ∀ i, p i → (c i ↔ d i)) : s.Splits q d where
  claimed_sorted := h.claimed_sorted
  unclaimed_sorted := h.unclaimed_sorted
  apart := h.apart
  all := fun i => (h.all i).trans (hp i)
  side := fun i hi => (h.side i ((hp i).mpr hi)).trans (hc i ((hp i).mpr hi))

theorem eq_iff (h : s.Splits p c) : t = s ↔ t.Splits p c := by
  constructor
  · intro ht
    rw [ht]
    exact h
  · intro ht
    exact ht.unique h

end ClaimStatus.Splits

/-! ## Intervals in a row -/

theorem pairwise_row (base : Int) (k : Nat) (c : Nat → Bool) :
    (((List.range k).filter c).map fun j : Nat => base + (j : Int)).Pairwise (· < ·) := by
  rw [List.pairwise_map]
  refine (List.pairwise_lt_range.filter c).imp ?_
  intro a b hab
  omega

theorem mem_row {base i : Int} {k : Nat} {c : Nat → Bool} :
    i ∈ ((List.range k).filter c).map (fun j : Nat => base + (j : Int)) ↔
      (base ≤ i ∧ i < base + k) ∧ c (i - base).toNat = true := by
  simp only [List.mem_map, List.mem_filter, List.mem_range]
  constructor
  · intro h
    obtain ⟨j, ⟨hj, hc⟩, rfl⟩ := h
    have hi : (base + (j : Int) - base).toNat = j := by omega
    rw [hi]
    exact ⟨⟨by omega, by omega⟩, hc⟩
  · intro h
    obtain ⟨⟨h1, h2⟩, hc⟩ := h
    exact ⟨(i - base).toNat, ⟨by omega, hc⟩, by omega⟩

/-- Intervals in a row, each on the side that `c` says by its place in the row. -/
theorem row_splits (base : Int) (k : Nat) (c : Nat → Bool) :
    ClaimStatus.Splits
      ⟨((List.range k).filter (!c ·)).map fun j : Nat => base + (j : Int),
        ((List.range k).filter c).map fun j : Nat => base + (j : Int)⟩
      (fun i => base ≤ i ∧ i < base + k) (fun i => c (i - base).toNat = true) where
  claimed_sorted := pairwise_row base k c
  unclaimed_sorted := pairwise_row base k (!c ·)
  apart := by
    intro i hi hi'
    have hc := (mem_row.mp hi).2
    have hn := (mem_row.mp hi').2
    simp [hc] at hn
  all := by
    intro i
    simp only [mem_row]
    by_cases hc : c (i - base).toNat = true
    · simp [hc]
    · simp [hc]
  side := by
    intro i hi
    simp only [mem_row]
    exact and_iff_right hi

/-! ## One bitmap -/

/-- The bit of an integer in two's complement. -/
theorem bit_eq_testBit (bitmap : Int) (i : Nat) : bit bitmap i = bitmap.testBit i := by
  cases bitmap with
  | ofNat m =>
    have hshift : (Int.ofNat m) >>> i = ((m >>> i : Nat) : Int) := rfl
    show ((Int.ofNat m) >>> i % 2 == 1) = m.testBit i
    rw [hshift, Nat.testBit_eq_decide_div_mod_eq, ← Nat.shiftRight_eq_div_pow, Bool.eq_iff_iff, beq_iff_eq,
      decide_eq_true_iff]
    omega
  | negSucc m =>
    have hshift : (Int.negSucc m) >>> i = Int.negSucc (m >>> i) := rfl
    show ((Int.negSucc m) >>> i % 2 == 1) = !m.testBit i
    rw [hshift, Nat.testBit_eq_decide_div_mod_eq, ← Nat.shiftRight_eq_div_pow, Bool.eq_iff_iff, beq_iff_eq,
      Bool.not_eq_true', decide_eq_false_iff_not]
    omega

theorem decodeBitmap_splits (bitmap bucket index : Int) :
    (decodeBitmap bitmap bucket index).Splits
      (fun i => 256 * bucket ≤ i ∧ i < min (256 * (bucket + 1)) index)
      (fun i => bitmap.testBit (i - 256 * bucket).toNat = true) := by
  have hrow : decodeBitmap bitmap bucket index =
      ⟨((List.range (min bucketSize (index - bucket * bucketSize).toNat)).filter (!bit bitmap ·)).map
          fun j : Nat => bucket * bucketSize + (j : Int),
        ((List.range (min bucketSize (index - bucket * bucketSize).toNat)).filter (bit bitmap ·)).map
          fun j : Nat => bucket * bucketSize + (j : Int)⟩ := by
    simp only [decodeBitmap, marks_eq, List.filter_map, List.map_map]
    rfl
  have hbase : bucket * (bucketSize : Int) = 256 * bucket := by
    simp only [bucketSize]
    omega
  rw [hrow, hbase]
  refine (row_splits _ _ _).congr ?_ ?_
  · intro i
    simp only [bucketSize]
    omega
  · intro i _
    rw [bit_eq_testBit]

/-! ## The claims -/

/-- Whether the interval's bit is set in the bitmap that can be read of its bucket. -/
def BitSet (cfg : Settings) (node : Text) (w : World) (i : Int) : Prop :=
  ∃ word, bitmapAt cfg node w (i / 256).toNat = .ok word ∧ word.testBit (i % 256).toNat = true

theorem isClaimed_iff {cfg : Settings} {node : Text} {w : World} {i : Int} (h : 0 ≤ i) :
    isClaimed cfg node w i.toNat = true ↔ BitSet cfg node w i := by
  have hb : (i / 256).toNat = i.toNat / 256 := by omega
  have hi : (i % 256).toNat = i.toNat % 256 := by omega
  unfold isClaimed BitSet
  rw [hb, hi]
  cases bitmapAt cfg node w (i.toNat / 256) with
  | error f => simp
  | ok word =>
    simp only [bit_eq_testBit, Except.ok.injEq, exists_eq_left']
    rfl

theorem split_splits (cfg : Settings) (node : Text) (w : World) (n : Nat) :
    (split (isClaimed cfg node w) 0 n).Splits (fun i => 0 ≤ i ∧ i < n) (BitSet cfg node w) := by
  have hrow : split (isClaimed cfg node w) 0 n =
      ⟨((List.range n).filter (!isClaimed cfg node w ·)).map fun j : Nat => 0 + (j : Int),
        ((List.range n).filter (isClaimed cfg node w ·)).map fun j : Nat => 0 + (j : Int)⟩ := by
    simp only [split, ← List.range_eq_range', Int.zero_add]
    rfl
  rw [hrow]
  refine (row_splits 0 n _).congr ?_ ?_
  · intro i
    rw [Int.zero_add]
  · intro i hi
    rw [Int.sub_zero]
    exact isClaimed_iff hi.1

/-- The claims come to a status exactly when the reward index can be read and, unless it is
    0, every bitmap up to that of the index, and the status splits the intervals below the
    index by their bits in these. Decoding one bitmap gives the status that splits the
    intervals of its bucket below the index by its bits. -/
theorem claimStatus_splits (cfg : Settings) (node : Text) :
    (∀ w s, (claimStatus cfg node).answer w = .ok s ↔
      ∃ n : Nat, (Chain.Client.rewardIndex cfg.network.storage).answer w = .ok n ∧
        (n ≠ 0 → ∀ b ≤ n / 256, ∃ word, bitmapAt cfg node w b = .ok word) ∧
        s.Splits (fun i => 0 ≤ i ∧ i < n) (BitSet cfg node w)) ∧
    ∀ bitmap bucket index s, decodeBitmap bitmap bucket index = s ↔
      s.Splits (fun i => 256 * bucket ≤ i ∧ i < min (256 * (bucket + 1)) index)
        (fun i => bitmap.testBit (i - 256 * bucket).toNat = true) := by
  constructor
  · intro w s
    simp only [claimStatus_ok_iff, (split_splits cfg node w _).eq_iff]
  · intro bitmap bucket index s
    rw [eq_comm]
    exact (decodeBitmap_splits bitmap bucket index).eq_iff

/-- All bits of -2 but the lowest are set, and the index ends two intervals into the bucket. -/
example : decodeBitmap (-2) 1 258 = ⟨[256], [257]⟩ := by decide

end NodeGauge.Rewards
