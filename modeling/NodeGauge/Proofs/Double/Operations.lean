/-
  NodeGauge.Proofs.Double.Operations — an operation on finite doubles gives the exact result
  rounded once: sums of numbers without a sign (`num_add`), products (`num_mul`) and
  quotients (`num_div`).

  One rounding above the subnormals moves a number by no more than one part in `2 ^ 53`
  (`rounded_error`).
-/

import NodeGauge.Proofs.Double.Nearest
import NodeGauge.Proofs.Double.Sums

namespace NodeGauge.Double

/-! ## Exact results -/

theorem ofRatio_eq {s : Bool} {n d : ℕ} (hd : 0 < d) {x : ℚ} (h : (n : ℚ) / d = x) :
    ofRatio s n d = num s (rounded x) (rounded_le x) := by
  unfold ofRatio
  simp only [rankOf_eq_rounded hd, h]

theorem ofDyadic_eq {s : Bool} {m : ℕ} {e : ℤ} {x : ℚ} (h : (m : ℚ) * 2 ^ e = x) :
    ofDyadic s m e = num s (rounded x) (rounded_le x) :=
  ofRatio_eq (one_shiftLeft_pos _) ((dyadic_quotient m e).trans h)

theorem num_add {r q : ℕ} (hr : r < infRank) (hq : q < infRank) :
    num false r hr.le + num false q hq.le = num false (rounded (magnitude r + magnitude q)) (rounded_le _) := by
  have hmr := shiftLeft_mul_zpow (m := mant r) (min_le_left (expo r) (expo q))
  have hmq := shiftLeft_mul_zpow (m := mant q) (min_le_right (expo r) (expo q))
  have hsum : magnitude r + magnitude q =
      ((mant r <<< (expo r - min (expo r) (expo q)).toNat + mant q <<< (expo q - min (expo r) (expo q)).toNat : ℕ) : ℚ) *
        2 ^ min (expo r) (expo q) := by
    rw [Nat.cast_add, add_mul, hmr, hmq]
    rfl
  rw [num_add_num, if_neg hr.ne, if_neg hq.ne, hsum]
  unfold addDyadic
  simp only [signed_of_zero (s := false) (fun h => nomatch h), ← Nat.cast_add]
  generalize mant r <<< (expo r - min (expo r) (expo q)).toNat + mant q <<< (expo q - min (expo r) (expo q)).toNat = n
  by_cases hn : n = 0
  · subst hn
    have hzero : rounded (((0 : ℕ) : ℚ) * 2 ^ min (expo r) (expo q)) = 0 := by
      refine rounded_of_eq ?_ (Nat.zero_le _) ?_ <;> simp
    rw [if_pos Nat.cast_zero]
    simp only [hzero]
    rfl
  · rw [if_neg (by omega), decide_eq_false (by omega), Int.natAbs_natCast]
    exact ofDyadic_eq rfl

theorem num_mul {s t : Bool} {r q : ℕ} (hr : r < infRank) (hq : q < infRank) :
    num s r hr.le * num t q hq.le = num (s != t) (rounded (magnitude r * magnitude q)) (rounded_le _) := by
  show (if r = infRank ∨ q = infRank then _ else _) = _
  rw [if_neg (by omega)]
  refine ofDyadic_eq ?_
  unfold magnitude
  rw [zpow_add₀ (by norm_num)]
  push_cast
  ring

theorem num_div {s t : Bool} {r q : ℕ} (hr : r < infRank) (hq : q < infRank) (h0 : q ≠ 0) :
    num s r hr.le / num t q hq.le = num (s != t) (rounded (magnitude r / magnitude q)) (rounded_le _) := by
  have hm : (mant q : ℚ) ≠ 0 := by exact_mod_cast mant_eq_zero_iff.not.mpr h0
  show (if r = infRank then _ else if q = infRank then _ else if q = 0 then _ else _) = _
  rw [if_neg hr.ne, if_neg hq.ne, if_neg h0]
  refine ofRatio_eq ?_ ?_
  · rw [Nat.shiftLeft_eq]
    exact Nat.mul_pos (Nat.pos_of_ne_zero (mant_eq_zero_iff.not.mpr h0)) (Nat.two_pow_pos _)
  · have h := shifted_quotient (-(expo r - expo q)) (mant r) (mant q)
    rw [neg_neg] at h
    rw [h]
    unfold magnitude
    rw [zpow_sub₀ (by norm_num)]
    field_simp

/-! ## One rounding -/

/-- A number that is at least the least normal one. -/
theorem rounded_error {x : ℚ} (hx : 2 ^ (-1022 : ℤ) ≤ x) (hfinite : rounded x < infRank) :
    |magnitude (rounded x) - x| ≤ x / 2 ^ 53 := by
  have hpos : 0 < x := lt_of_lt_of_le (by positivity) hx
  have hquot := quotient_eq hpos.le
  have hnum : 0 < x.num.toNat := by
    have h := Rat.num_pos.mpr hpos
    omega
  obtain ⟨e, m, k, hrank, he, hm, hmk, hkm, hlow, hhigh, hhalf, -⟩ := rankOf_grid hnum x.den_pos
  rw [hquot] at hlow hhigh hhalf
  have hr : rounded x = e * 2 ^ 52 + k := by
    unfold rounded at hfinite ⊢
    omega
  have hnormal : 2 ^ 52 ≤ m := by
    rcases he with rfl | he
    · have hlt := hx.trans_lt hhigh
      rw [Nat.cast_zero, zero_sub, show (-1022 : ℤ) = 52 + -1074 by norm_num, zpow_add₀ (by norm_num)] at hlt
      have hlt : (2 : ℚ) ^ (52 : ℤ) < ((m + 1 : ℕ) : ℚ) := lt_of_mul_lt_mul_right hlt (by positivity)
      exact Nat.lt_succ_iff.mp (by exact_mod_cast hlt)
    · exact he
  rw [hr, magnitude_grid (by omega) (by omega)]
  have hunit : (2 : ℚ) ^ 52 * 2 ^ ((e : ℤ) - 1074) ≤ m * 2 ^ ((e : ℤ) - 1074) := by
    have hcast : (2 : ℚ) ^ 52 ≤ m := by exact_mod_cast hnormal
    gcongr
  generalize (2 : ℚ) ^ ((e : ℤ) - 1074) = u at *
  refine hhalf.trans ?_
  rw [le_div_iff₀ (by positivity)]
  linarith

end NodeGauge.Double
