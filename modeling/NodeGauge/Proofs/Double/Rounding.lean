/-
  NodeGauge.Proofs.Double.Rounding — rounding against exact values. A rank stands for its
  `magnitude`, and magnitudes grow with the ranks. A quotient is rounded to the nearest rank,
  the even one of two equally near, unless that lies past infinity (`rankOf_nearest`).

  So no rank lies between a quotient and the rank it is rounded to: what is at most the
  quotient is at most its rank (`le_rankOf`), and what is at least the quotient is at least
  its rank (`rankOf_le_of_le`). A quotient that a rank stands for is rounded to that rank
  (`rankOf_of_eq`).
-/

import Mathlib.Algebra.Order.Field.Power
import Mathlib.Data.Nat.Cast.Order.Field
import Mathlib.Tactic.FieldSimp
import Mathlib.Tactic.Linarith
import Mathlib.Tactic.Positivity
import Mathlib.Tactic.Ring
import NodeGauge.Double

namespace NodeGauge.Double

/-- The number a rank stands for. -/
def magnitude (rank : Nat) : ℚ := mant rank * 2 ^ expo rank

/-! ## Ranks as multiples of a unit -/

theorem leastNormal_eq : leastNormal = 2 ^ 52 := by decide

/-- Up to the power of two that follows, a rank stands for its significand in units of the
    last place. -/
theorem magnitude_grid {e m : Nat} (h : e = 0 ∨ 2 ^ 52 ≤ m) (hm : m ≤ 2 ^ 53) :
    magnitude (e * 2 ^ 52 + m) = m * 2 ^ ((e : ℤ) - 1074) := by
  unfold magnitude
  rcases Nat.lt_or_eq_of_le hm with hlt | rfl
  · have hmant : mant (e * 2 ^ 52 + m) = m := by
      unfold mant
      rw [leastNormal_eq]
      split <;> omega
    have hexpo : expo (e * 2 ^ 52 + m) = (e : ℤ) - 1074 := by
      unfold expo
      rw [leastNormal_eq]
      split <;> omega
    rw [hmant, hexpo]
  · have hmant : mant (e * 2 ^ 52 + 2 ^ 53) = 2 ^ 52 := by
      unfold mant
      rw [leastNormal_eq]
      split <;> omega
    have hexpo : expo (e * 2 ^ 52 + 2 ^ 53) = ((e : ℤ) - 1074) + 1 := by
      unfold expo
      rw [leastNormal_eq]
      split <;> omega
    rw [hmant, hexpo, zpow_add_one₀ (by norm_num)]
    push_cast
    ring

/-- Every rank is one of a grid. -/
theorem exists_grid (r : Nat) : ∃ e m, r = e * 2 ^ 52 + m ∧ (e = 0 ∨ 2 ^ 52 ≤ m) ∧ m < 2 ^ 53 := by
  refine ⟨r / 2 ^ 52 - 1, r - (r / 2 ^ 52 - 1) * 2 ^ 52, ?_, ?_, ?_⟩ <;> omega

theorem magnitude_strictMono : StrictMono magnitude := by
  refine strictMono_nat_of_lt_succ fun r => ?_
  obtain ⟨e, m, rfl, he, hm⟩ := exists_grid r
  rw [Nat.add_assoc, magnitude_grid he (Nat.le_of_lt hm), magnitude_grid (by omega) hm]
  have hpos : (0 : ℚ) < 2 ^ ((e : ℤ) - 1074) := by positivity
  have hlt : (m : ℚ) < ((m + 1 : Nat) : ℚ) := by exact_mod_cast Nat.lt_succ_self m
  exact mul_lt_mul_of_pos_right hlt hpos

@[simp] theorem magnitude_zero : magnitude 0 = 0 := by
  have h : mant 0 = 0 := by decide
  rw [magnitude, h, Nat.cast_zero, zero_mul]

theorem magnitude_eq_zero_iff {r : ℕ} : magnitude r = 0 ↔ r = 0 := by
  constructor
  · intro h
    exact magnitude_strictMono.injective (h.trans magnitude_zero.symm)
  · rintro rfl
    exact magnitude_zero

/-! ## The unit of a quotient -/

variable {n d : Nat}

/-- A quotient is what its shifted parts make, brought back. -/
theorem shifted_quotient (e : ℤ) (n d : Nat) :
    ((n <<< (-e).toNat : Nat) : ℚ) / (d <<< e.toNat : Nat) = n / d * 2 ^ (-e) := by
  have h : (2 : ℚ) ^ (-e) = 2 ^ (-e).toNat / 2 ^ e.toNat := by
    rw [← zpow_natCast, ← zpow_natCast, ← zpow_sub₀ (by norm_num)]
    congr 1
    omega
  rw [Nat.shiftLeft_eq, Nat.shiftLeft_eq, h]
  push_cast
  field_simp

/-- Is the quotient at least the power of two? -/
theorem le_quotient_iff (e : ℤ) (hd : 0 < d) :
    d <<< e.toNat ≤ n <<< (-e).toNat ↔ (2 : ℚ) ^ e ≤ n / d := by
  have hpos : (0 : ℚ) < (d <<< e.toNat : Nat) := by
    rw [Nat.shiftLeft_eq]
    positivity
  have hone : (1 : ℚ) ≤ n / d * 2 ^ (-e) ↔ (2 : ℚ) ^ e ≤ n / d := by
    rw [zpow_neg, ← div_eq_mul_inv, le_div_iff₀ (by positivity), one_mul]
  rw [← hone, ← shifted_quotient, le_div_iff₀ hpos, one_mul, Nat.cast_le]

theorem floorLog2_spec (hn : 0 < n) (hd : 0 < d) :
    (2 : ℚ) ^ floorLog2 n d ≤ n / d ∧ (n : ℚ) / d < 2 ^ (floorLog2 n d + 1) := by
  have hnq : (0 : ℚ) < n := by exact_mod_cast hn
  have hdq : (0 : ℚ) < d := by exact_mod_cast hd
  have hn1 : (2 : ℚ) ^ (n.log2 : ℤ) ≤ n := by exact_mod_cast Nat.log2_self_le (by omega)
  have hn2 : (n : ℚ) < 2 ^ ((n.log2 : ℤ) + 1) := by exact_mod_cast Nat.lt_log2_self
  have hd1 : (2 : ℚ) ^ (d.log2 : ℤ) ≤ d := by exact_mod_cast Nat.log2_self_le (by omega)
  have hd2 : (d : ℚ) < 2 ^ ((d.log2 : ℤ) + 1) := by exact_mod_cast Nat.lt_log2_self
  -- The logarithms of the two parts leave two powers of two to choose from.
  have hlow : (2 : ℚ) ^ ((n.log2 : ℤ) - d.log2 - 1) ≤ n / d := by
    rw [show (n.log2 : ℤ) - d.log2 - 1 = n.log2 - (d.log2 + 1) by ring, zpow_sub₀ (by norm_num)]
    exact div_le_div₀ hnq.le hn1 hdq hd2.le
  have hhigh : (n : ℚ) / d < 2 ^ ((n.log2 : ℤ) - d.log2 + 1) := by
    rw [show (n.log2 : ℤ) - d.log2 + 1 = n.log2 + 1 - d.log2 by ring, zpow_sub₀ (by norm_num)]
    exact div_lt_div₀ hn2 hd1 (by positivity) (by positivity)
  unfold floorLog2
  simp only [le_quotient_iff _ hd]
  split
  · exact ⟨‹_›, hhigh⟩
  · rename_i h
    refine ⟨hlow, ?_⟩
    rw [sub_add_cancel]
    exact lt_of_not_ge h

/-! ## The rank of a quotient -/

theorem roundEven_cases (n d : Nat) : n / d ≤ roundEven n d ∧ roundEven n d ≤ n / d + 1 := by
  unfold roundEven
  split <;> omega

/-- Within a half of the quotient, and even if it is a half away. -/
theorem roundEven_spec (n : Nat) (hd : 0 < d) :
    |(roundEven n d : ℚ) - n / d| ≤ 1 / 2 ∧ (|(roundEven n d : ℚ) - n / d| = 1 / 2 → Even (roundEven n d)) := by
  have hdq : (0 : ℚ) < d := by exact_mod_cast hd
  have hquot : (n : ℚ) / d = (n / d : Nat) + ((n % d : Nat) : ℚ) / d := by
    rw [div_eq_iff hdq.ne', add_mul, div_mul_cancel₀ _ hdq.ne', mul_comm]
    exact_mod_cast (Nat.div_add_mod n d).symm
  have hrest : n % d < d := Nat.mod_lt n hd
  unfold roundEven
  rw [hquot]
  generalize n % d = r at *
  generalize n / d = q at *
  by_cases h : 2 * r < d ∨ (2 * r = d ∧ q % 2 = 0)
  · -- The quotient is `q` and at most a half.
    have hhalf : (2 : ℚ) * r ≤ d := by exact_mod_cast (by omega : 2 * r ≤ d)
    rw [if_pos h, sub_add_cancel_left, abs_neg, abs_of_nonneg (by positivity), div_le_iff₀ hdq,
      div_eq_iff hdq.ne']
    refine ⟨by linarith, fun htie => ?_⟩
    have htie : 2 * r = d := by exact_mod_cast (by linarith : (2 : ℚ) * r = d)
    exact Nat.even_iff.mpr (by omega)
  · -- It is `q` and at least a half.
    have hhalf : (d : ℚ) ≤ 2 * r := by exact_mod_cast (by omega : d ≤ 2 * r)
    have hlt : (r : ℚ) / d < 1 := (div_lt_one hdq).mpr (by exact_mod_cast hrest)
    have hdist : ((q + 1 : Nat) : ℚ) - (q + r / d) = 1 - r / d := by
      push_cast
      ring
    rw [if_neg h, hdist, abs_of_pos (by linarith), sub_le_comm, sub_eq_iff_eq_add, ← sub_eq_iff_eq_add', le_div_iff₀ hdq,
      eq_div_iff hdq.ne']
    refine ⟨by linarith, fun htie => ?_⟩
    have htie : 2 * r = d := by exact_mod_cast (by linarith : (2 : ℚ) * r = d)
    exact Nat.even_iff.mpr (by omega)

/-- The quotient in units of its last place: below `2 ^ 53`, and at least `2 ^ 52` unless the
    unit is the least there is. -/
theorem unitExpo_spec (hn : 0 < n) (hd : 0 < d) :
    (n : ℚ) / d * 2 ^ (-unitExpo n d) < 2 ^ 53 ∧
      (unitExpo n d = -1074 ∨ (2 : ℚ) ^ 52 ≤ n / d * 2 ^ (-unitExpo n d)) := by
  obtain ⟨hle, hlt⟩ := floorLog2_spec hn hd
  have hunit : ∀ x : ℚ, ∀ e : ℤ, x * 2 ^ (-e) = x / 2 ^ e := fun x e => by rw [zpow_neg, div_eq_mul_inv]
  rw [hunit]
  constructor
  · have hexp : floorLog2 n d + 1 ≤ 53 + unitExpo n d := by
      unfold unitExpo
      omega
    rw [div_lt_iff₀ (by positivity), ← zpow_natCast, ← zpow_add₀ (by norm_num)]
    exact hlt.trans_le (zpow_le_zpow_right₀ (by norm_num) hexp)
  · by_cases h : unitExpo n d = -1074
    · exact Or.inl h
    · have hexp : 52 + unitExpo n d = floorLog2 n d := by
        unfold unitExpo at h ⊢
        omega
      rw [le_div_iff₀ (by positivity), ← zpow_natCast, ← zpow_add₀ (by norm_num)]
      exact Or.inr (by simpa [hexp] using hle)

/-- The rank of a quotient lies on the grid of its unit: at the multiple below the quotient or
    at the next one, and at the nearer of the two. -/
theorem rankOf_grid (hn : 0 < n) (hd : 0 < d) :
    ∃ e m k : ℕ, rankOf n d = min (e * 2 ^ 52 + k) infRank ∧
      (e = 0 ∨ 2 ^ 52 ≤ m) ∧ m < 2 ^ 53 ∧ m ≤ k ∧ k ≤ m + 1 ∧
      (m : ℚ) * 2 ^ ((e : ℤ) - 1074) ≤ n / d ∧ (n : ℚ) / d < ((m + 1 : ℕ) : ℚ) * 2 ^ ((e : ℤ) - 1074) ∧
      |(k : ℚ) * 2 ^ ((e : ℤ) - 1074) - n / d| ≤ 2 ^ ((e : ℤ) - 1074) / 2 ∧
      (|(k : ℚ) * 2 ^ ((e : ℤ) - 1074) - n / d| = 2 ^ ((e : ℤ) - 1074) / 2 → Even k) := by
  obtain ⟨hhigh, hlow⟩ := unitExpo_spec hn hd
  have hleast : -1074 ≤ unitExpo n d := by
    unfold unitExpo
    omega
  let num := n <<< (-unitExpo n d).toNat
  let den := d <<< (unitExpo n d).toNat
  have hden : 0 < den := by
    show 0 < d <<< (unitExpo n d).toNat
    rw [Nat.shiftLeft_eq]
    positivity
  have hdenq : (0 : ℚ) < den := by exact_mod_cast hden
  have hquot : (num : ℚ) / den = n / d * 2 ^ (-unitExpo n d) := shifted_quotient ..
  have hback : (n : ℚ) / d = num / den * 2 ^ unitExpo n d := by
    rw [hquot, mul_assoc, ← zpow_add₀ (by norm_num), neg_add_cancel, zpow_zero, mul_one]
  have hexp : (((unitExpo n d + 1074).toNat : ℤ) - 1074) = unitExpo n d := by omega
  have hpow : (0 : ℚ) < 2 ^ unitExpo n d := by positivity
  have hfloor : ((num / den : Nat) : ℚ) ≤ num / den := Nat.cast_div_le
  have hnext : (num : ℚ) / den < ((num / den + 1 : ℕ) : ℚ) := by
    rw [div_lt_iff₀ hdenq]
    exact_mod_cast Nat.lt_mul_of_div_lt (Nat.lt_succ_self _) hden
  have hdist : |(roundEven num den : ℚ) * 2 ^ unitExpo n d - n / d| =
      |(roundEven num den : ℚ) - num / den| * 2 ^ unitExpo n d := by
    rw [hback, ← sub_mul, abs_mul, abs_of_pos hpow]
  obtain ⟨hnear, htie⟩ := roundEven_spec num hden
  rw [← hquot] at hhigh hlow
  refine ⟨(unitExpo n d + 1074).toNat, num / den, roundEven num den, ?_, ?_, ?_, (roundEven_cases ..).1,
    (roundEven_cases ..).2, ?_, ?_, ?_, ?_⟩
  · unfold rankOf
    rw [if_neg (by omega), leastNormal_eq]
  · rcases hlow with h | h
    · exact Or.inl (by omega)
    · have hlt : (2 : ℚ) ^ 52 < ((num / den + 1 : ℕ) : ℚ) := h.trans_lt hnext
      exact Or.inr (Nat.lt_succ_iff.mp (by exact_mod_cast hlt))
  · exact_mod_cast hfloor.trans_lt hhigh
  · rw [hexp, hback]
    exact mul_le_mul_of_nonneg_right hfloor hpow.le
  · rw [hexp, hback]
    exact mul_lt_mul_of_pos_right hnext hpow
  · rw [hexp, hdist, ← one_div_mul_eq_div 2]
    exact mul_le_mul_of_nonneg_right hnear hpow.le
  · rw [hexp, hdist, ← one_div_mul_eq_div 2]
    exact fun h => htie (mul_right_cancel₀ hpow.ne' h)

/-! ## The nearest rank -/

/-- No rank is nearer to the number, and a rank that is equally near leaves an even one. -/
structure NearestRank (x : ℚ) (r : ℕ) : Prop where
  near : ∀ q, |magnitude r - x| ≤ |magnitude q - x|
  tie : ∀ q, q ≠ r → |magnitude q - x| = |magnitude r - x| → Even r

namespace NearestRank

variable {x : ℚ} {r q : ℕ}

theorem le_of_magnitude_le (h : NearestRank x r) (hq : magnitude q ≤ x) : q ≤ r := by
  by_contra hlt
  have hmag := magnitude_strictMono (not_le.mp hlt)
  have hnear := h.near q
  rw [abs_of_nonpos (by linarith), abs_of_nonpos (by linarith)] at hnear
  linarith

theorem le_of_le_magnitude (h : NearestRank x r) (hq : x ≤ magnitude q) : r ≤ q := by
  by_contra hlt
  have hmag := magnitude_strictMono (not_le.mp hlt)
  have hnear := h.near q
  rw [abs_of_nonneg (by linarith), abs_of_nonneg (by linarith)] at hnear
  linarith

end NearestRank

/-- Of the two multiples of a unit beside a number `k` is the nearer one. What lies outside of
    them is no nearer, and where it is equally near the number is half way. -/
theorem nearest_multiple {u x y : ℚ} {m k : ℕ} (hmk : m ≤ k) (hkm : k ≤ m + 1) (hlow : m * u ≤ x)
    (hhigh : x < (m + 1) * u) (hhalf : |k * u - x| ≤ u / 2) (hy : y ≤ m * u ∨ (m + 1) * u ≤ y) :
    |k * u - x| ≤ |y - x| ∧ (y ≠ k * u → |y - x| = |k * u - x| → |k * u - x| = u / 2) := by
  have hk : (k : ℚ) = m ∨ (k : ℚ) = m + 1 := by
    rcases Nat.le_succ_iff.mp hkm with hle | rfl
    · exact Or.inl (by rw [Nat.le_antisymm hle hmk])
    · exact Or.inr (by push_cast; rfl)
  have hdist : |y - x| = x - y ∧ y ≤ m * u ∨ |y - x| = y - x ∧ (m + 1) * u ≤ y := by
    rcases hy with h | h
    · exact Or.inl ⟨(abs_of_nonpos (by linarith)).trans (neg_sub _ _), h⟩
    · exact Or.inr ⟨abs_of_nonneg (by linarith), h⟩
  rcases hk with hk | hk
  · rw [hk, abs_of_nonpos (by linarith)] at hhalf ⊢
    rcases hdist with ⟨hd, h⟩ | ⟨hd, h⟩
    · exact ⟨by linarith, fun hne heq => absurd (by linarith) hne⟩
    · exact ⟨by linarith, fun _ heq => by linarith⟩
  · rw [hk, abs_of_pos (by linarith)] at hhalf ⊢
    rcases hdist with ⟨hd, h⟩ | ⟨hd, h⟩
    · exact ⟨by linarith, fun _ heq => by linarith⟩
    · exact ⟨by linarith, fun hne heq => absurd (by linarith) hne⟩

/-- A quotient is rounded to the nearest rank, or to that of infinity if this is less. -/
theorem rankOf_nearest (n : ℕ) (hd : 0 < d) : ∃ r, rankOf n d = min r infRank ∧ NearestRank (n / d) r := by
  rcases Nat.eq_zero_or_pos n with rfl | hn
  · exact ⟨0, by simp [rankOf], ⟨fun q => by simp, fun _ _ _ => Even.zero⟩⟩
  · obtain ⟨e, m, k, hrank, he, hm, hmk, hkm, hlow, hhigh, hhalf, heven⟩ := rankOf_grid hn hd
    have hk : magnitude (e * 2 ^ 52 + k) = k * 2 ^ ((e : ℤ) - 1074) := magnitude_grid (by omega) (by omega)
    -- No rank stands for a number between the two multiples.
    have hside : ∀ q, magnitude q ≤ m * 2 ^ ((e : ℤ) - 1074) ∨ (m + 1) * 2 ^ ((e : ℤ) - 1074) ≤ magnitude q := by
      intro q
      rw [← Nat.cast_succ, ← magnitude_grid he hm.le, ← magnitude_grid (by omega) (by omega),
        magnitude_strictMono.le_iff_le, magnitude_strictMono.le_iff_le]
      omega
    rw [Nat.cast_succ] at hhigh
    refine ⟨e * 2 ^ 52 + k, hrank, ⟨fun q => ?_, fun q hq heq => ?_⟩⟩
    · rw [hk]
      exact (nearest_multiple hmk hkm hlow hhigh hhalf (hside q)).1
    · have hne : magnitude q ≠ k * 2 ^ ((e : ℤ) - 1074) := hk ▸ magnitude_strictMono.injective.ne hq
      rw [hk] at heq
      have hpow : Even (2 ^ 52) := by decide
      exact (hpow.mul_left e).add (heven ((nearest_multiple hmk hkm hlow hhigh hhalf (hside q)).2 hne heq))

/-- What is at most the quotient is at most its rank. -/
theorem le_rankOf {r : Nat} (hr : r ≤ infRank) (hd : 0 < d) (h : magnitude r ≤ n / d) : r ≤ rankOf n d := by
  obtain ⟨q, hq, hnear⟩ := rankOf_nearest n hd
  rw [hq]
  exact le_min (hnear.le_of_magnitude_le h) hr

/-- What is at least the quotient is at least its rank. -/
theorem rankOf_le_of_le {r : Nat} (hd : 0 < d) (h : (n : ℚ) / d ≤ magnitude r) : rankOf n d ≤ r := by
  obtain ⟨q, hq, hnear⟩ := rankOf_nearest n hd
  rw [hq]
  exact (Nat.min_le_left ..).trans (hnear.le_of_le_magnitude h)

/-- A quotient that a rank stands for is rounded to that rank. -/
theorem rankOf_of_eq {r : Nat} (hr : r ≤ infRank) (hd : 0 < d) (h : (n : ℚ) / d = magnitude r) : rankOf n d = r :=
  Nat.le_antisymm (rankOf_le_of_le hd h.le) (le_rankOf hr hd h.ge)

end NodeGauge.Double
