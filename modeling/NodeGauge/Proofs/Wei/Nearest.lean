/-
  NodeGauge.Proofs.Wei.Nearest — amounts in ether are rounded correctly. An amount has the
  number of ether that is nearest to its quotient by `10 ^ 18`, with ties to the even
  significand; no other integer has one (`toEther_nearest`). The quotients lie between
  `2 ^ (-60)` and `2 ^ 256`, so all of them are finite, and only zero has a quotient that
  is rounded to zero.
-/

import NodeGauge.Proofs.Double.Nearest
import NodeGauge.Proofs.Double.Sums
import NodeGauge.Proofs.Wei

namespace NodeGauge.Wei

open Double (rankOf magnitude)

variable {v w : Wei}

theorem weiPerEther_pos : 0 < weiPerEther := by decide

/-- The quotient that is rounded. -/
theorem quotient_eq (h : 0 ≤ v) : (v.toNat : ℚ) / weiPerEther = v / 10 ^ 18 := by
  have hv : ((v.toNat : ℤ) : ℚ) = v := by rw [Int.toNat_of_nonneg h]
  have hunit : (weiPerEther : ℚ) = 10 ^ 18 := by norm_num [weiPerEther]
  rw [← hv, hunit, Int.cast_natCast]

/-- An amount is at most `2 ^ 256` in ether. -/
theorem rank_le (h : IsAmount v) : rankOf v.toNat weiPerEther ≤ (1278 + 1) * 2 ^ 52 := by
  have hv : (v : ℚ) ≤ 2 ^ 256 := by exact_mod_cast h.2.le
  refine Double.rankOf_le_of_le weiPerEther_pos ?_
  rw [quotient_eq h.1, Double.magnitude_power, div_le_iff₀ (by norm_num)]
  norm_num
  linarith

/-- One that is not zero is at least `2 ^ (-60)`. -/
theorem le_rank (h : 0 < v) : (962 + 1) * 2 ^ 52 ≤ rankOf v.toNat weiPerEther := by
  have hv : (1 : ℚ) ≤ v := by exact_mod_cast h
  refine Double.le_rankOf (by decide) weiPerEther_pos ?_
  rw [quotient_eq h.le, Double.magnitude_power, le_div_iff₀ (by norm_num)]
  norm_num
  linarith

theorem rank_lt_infRank (h : IsAmount v) : rankOf v.toNat weiPerEther < infRank :=
  (rank_le h).trans_lt (by decide)

theorem rank_eq_zero_iff (h : 0 ≤ v) : rankOf v.toNat weiPerEther = 0 ↔ v = 0 := by
  constructor
  · intro hr
    by_contra hne
    have hle := le_rank (lt_of_le_of_ne h (Ne.symm hne))
    omega
  · rintro rfl
    rfl

theorem toEther_ok_nearest_iff {x : Double} :
    toEther v = .ok x ↔ IsAmount v ∧ x.Nearest (v / 10 ^ 18) ∧ x ≠ .zero true := by
  rw [toEther_ok_iff]
  refine and_congr_right fun h => ?_
  rw [← quotient_eq h.1, Double.nearest_iff weiPerEther_pos (rank_lt_infRank h)]

theorem toEther_nonneg {x : Double} (h : toEther v = .ok x) : 0 ≤ x := by
  rw [(toEther_ok_iff.mp h).2]
  exact Double.ofRatio_nonneg _ _

theorem toEther_mono {x y : Double} (hx : toEther v = .ok x) (hy : toEther w = .ok y) (h : v ≤ w) : x ≤ y := by
  obtain ⟨hv, rfl⟩ := toEther_ok_iff.mp hx
  obtain ⟨hw, rfl⟩ := toEther_ok_iff.mp hy
  have hquot : (v.toNat : ℚ) / weiPerEther ≤ w.toNat / weiPerEther := by
    rw [quotient_eq hv.1, quotient_eq hw.1]
    have hcast : (v : ℚ) ≤ w := by exact_mod_cast h
    gcongr
  exact Double.num_le_num.mpr (Int.ofNat_le.mpr (Double.rankOf_mono weiPerEther_pos weiPerEther_pos hquot))

/-- An amount and no other integer has a number of ether: the double nearest to its quotient
    by `10 ^ 18`. It is finite, and zero for zero alone, and no amount has less of it than a
    smaller one. -/
theorem toEther_nearest :
    (∀ v x, toEther v = .ok x ↔ IsAmount v ∧ x.Nearest (v / 10 ^ 18) ∧ x ≠ .zero true) ∧
    (∀ v, IsAmount v → ∃ x, toEther v = .ok x ∧ x.isFinite = true ∧ (x = 0 ↔ v = 0)) ∧
    (∀ v w x y, toEther v = .ok x → toEther w = .ok y → v ≤ w → x ≤ y) ∧
    ∀ v, ¬ IsAmount v → toEther v = .error .amountOutOfRange := by
  refine ⟨fun v x => toEther_ok_nearest_iff, fun v h => ?_, fun v w x y => toEther_mono, fun v h =>
    toEther_error_iff.mpr ⟨h, rfl⟩⟩
  refine ⟨_, toEther_ok_iff.mpr ⟨h, rfl⟩, Double.isFinite_num.mpr (rank_lt_infRank h), ?_⟩
  rw [← rank_eq_zero_iff h.1, Double.zero_eq, Double.ofRatio, Double.num.injEq]
  exact and_iff_right rfl

/-- Half way between two doubles the one of even significand is taken, below and above. -/
example : toEther ((2 ^ 53 + 1) * 10 ^ 18) = toEther (2 ^ 53 * 10 ^ 18) ∧
    toEther ((2 ^ 53 + 3) * 10 ^ 18) = toEther ((2 ^ 53 + 4) * 10 ^ 18) := by
  decide +kernel

end NodeGauge.Wei
