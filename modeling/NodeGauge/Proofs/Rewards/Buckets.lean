/-
  NodeGauge.Proofs.Rewards.Buckets — the intervals of a bitmap, and of bitmaps side by side.
  A bitmap splits the intervals of its bucket below the reward index, in order, and each by
  its own bit (`decodeBitmap_eq`). Intervals that are split in consecutive parts are split
  as they are at once (`split_append`), so a last part that is cut short by the reward
  index, or empty, needs no case of its own.
-/

import NodeGauge.Rewards.Claims

namespace NodeGauge.Rewards

/-- Consecutive intervals, split by whether they are claimed. -/
def split (claimed : Nat → Bool) (start count : Nat) : ClaimStatus :=
  ⟨((List.range' start count).filter (!claimed ·)).map Int.ofNat,
    ((List.range' start count).filter claimed).map Int.ofNat⟩

@[simp] theorem split_zero (claimed : Nat → Bool) (start : Nat) : split claimed start 0 = .empty := rfl

theorem split_congr {c d : Nat → Bool} {start count : Nat} (h : ∀ i, start ≤ i → i < start + count → c i = d i) :
    split c start count = split d start count := by
  have hm : ∀ i ∈ List.range' start count, c i = d i := fun i hi => by
    obtain ⟨h1, h2⟩ := List.mem_range'_1.mp hi
    exact h i h1 h2
  have hn : ∀ i ∈ List.range' start count, (!c i) = !d i := fun i hi => by rw [hm i hi]
  simp only [split, List.filter_congr hm, List.filter_congr hn]

theorem split_append (c : Nat → Bool) (start m n : Nat) :
    split c start m ++ split c (start + m) n = split c start (m + n) := by
  show ClaimStatus.append _ _ = _
  simp only [ClaimStatus.append, split, ← List.map_append, ← List.filter_append, List.range'_append_1]

theorem mem_filter_range {p : Nat → Bool} {n : Nat} {i : Int} :
    i ∈ ((List.range' 0 n).filter p).map Int.ofNat ↔ ∃ k < n, p k = true ∧ i = k := by
  simp only [List.mem_map, List.mem_filter, List.mem_range'_1]
  constructor
  · intro h
    obtain ⟨k, ⟨⟨-, hk⟩, hp⟩, rfl⟩ := h
    exact ⟨k, by omega, hp, rfl⟩
  · intro h
    obtain ⟨k, hk, hp, rfl⟩ := h
    exact ⟨k, ⟨⟨by omega, by omega⟩, hp⟩, rfl⟩

theorem mem_claimed {c : Nat → Bool} {n : Nat} {i : Int} :
    i ∈ (split c 0 n).claimed ↔ ∃ k < n, c k = true ∧ i = k := mem_filter_range

theorem mem_unclaimed {c : Nat → Bool} {n : Nat} {i : Int} :
    i ∈ (split c 0 n).unclaimed ↔ ∃ k < n, c k = false ∧ i = k := by
  have h : i ∈ (split c 0 n).unclaimed ↔ ∃ k < n, (!c k) = true ∧ i = k := mem_filter_range
  simpa only [Bool.not_eq_true'] using h

theorem nodup_claimed (c : Nat → Bool) (start count : Nat) : (split c start count).claimed.Nodup := by
  have h : ((List.range' start count).filter c).Nodup := List.Pairwise.filter c List.nodup_range'
  exact List.Pairwise.map Int.ofNat (fun a b hab he => hab (Int.ofNat.inj he)) h

/-! ## One bitmap -/

theorem takeWhile_range (m k : Nat) : (List.range m).takeWhile (fun i => decide (i < k)) = List.range (min m k) := by
  have hsplit : List.range m = List.range (min m k) ++ List.range' (min m k) (m - min m k) := by
    rw [List.range_eq_range', List.range_eq_range']
    have := List.range'_append_1 (s := 0) (m := min m k) (n := m - min m k)
    rw [Nat.zero_add] at this
    rw [this]
    congr 1
    omega
  have hrest : (List.range' (min m k) (m - min m k)).takeWhile (fun i => decide (i < k)) = [] := by
    rcases Nat.eq_zero_or_pos (m - min m k) with h | h
    · rw [h]
      rfl
    · obtain ⟨d, hd⟩ : ∃ d, m - min m k = d + 1 := ⟨m - min m k - 1, by omega⟩
      have hk : ¬ min m k < k := by omega
      rw [hd, List.range'_succ, List.takeWhile_cons]
      simp [hk]
  rw [hsplit, List.takeWhile_append_of_pos, hrest, List.append_nil]
  intro i hi
  have := List.mem_range.mp hi
  simp only [decide_eq_true_eq]
  omega

/-- The intervals of a bucket that lie below the reward index, with their bits. -/
theorem marks_eq (bitmap bucket index : Int) :
    marks bitmap bucket index =
      (List.range (min bucketSize (index - bucket * bucketSize).toNat)).map fun i : Nat =>
        (bucket * bucketSize + (i : Int), bit bitmap i) := by
  unfold marks
  rw [List.takeWhile_map, ← takeWhile_range]
  congr 2
  funext i
  simp only [Function.comp_apply, decide_eq_decide]
  omega

theorem decodeBitmap_eq (word bucket index : Nat) :
    decodeBitmap word bucket index =
      split (fun i => bit word (i - 256 * bucket)) (256 * bucket) (min 256 (index - 256 * bucket)) := by
  have hcount : ((index : Int) - (bucket : Int) * bucketSize).toNat = index - 256 * bucket := by
    simp only [bucketSize]
    omega
  have hplace : (fun i : Nat => ((bucket : Int) * bucketSize + (i : Int), bit word i)) =
      fun i => (((256 * bucket + i : Nat) : Int), bit word (256 * bucket + i - 256 * bucket)) := by
    funext i
    simp only [bucketSize, Nat.add_sub_cancel_left, Prod.mk.injEq, and_true]
    omega
  simp only [decodeBitmap, marks_eq, hcount, hplace, split, List.range'_eq_map_range, List.filter_map, List.map_map]
  rfl

end NodeGauge.Rewards
