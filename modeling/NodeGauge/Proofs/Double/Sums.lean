/-
  NodeGauge.Proofs.Double.Sums — sums of doubles that are not below zero. Such a sum is not
  below zero either, so it is no NaN, and it is not below either number (`add_spec`). Adding
  zero gives the number back, but for -0 (`add_zero_eq`), and no sum with a number that has
  no sign is -0 (`add_ne_negZero`).
-/

import NodeGauge.Proofs.Double.Rounding

namespace NodeGauge.Double

/-! ## Order -/

theorem le_iff {x y : Double} : x ≤ y ↔ le x y = true := Iff.rfl

theorem num_le_num {s t : Bool} {r q : Nat} {h : r ≤ infRank} {k : q ≤ infRank} :
    num s r h ≤ num t q k ↔ place s r ≤ place t q := by
  rw [le_iff, le, decide_eq_true_iff]

theorem zero_eq : (0 : Double) = num false 0 (Nat.zero_le _) := rfl

/-- A number that is not below zero has no sign or is -0. -/
theorem nonneg_iff {x : Double} : 0 ≤ x ↔ ∃ s r h, x = num s r h ∧ (s = true → r = 0) := by
  cases x with
  | nan => simp [le_iff, zero_eq, le]
  | num s r h =>
    rw [zero_eq, num_le_num]
    cases s with
    | false => simp [place, signed, h]
    | true => simp [place, signed, h]

theorem not_isNaN_of_nonneg {x : Double} (h : 0 ≤ x) : x.isNaN = false := by
  obtain ⟨s, r, hr, rfl, -⟩ := nonneg_iff.mp h
  rfl

theorem le_refl_of_nonneg {x : Double} (h : 0 ≤ x) : x ≤ x := by
  obtain ⟨s, r, hr, rfl, -⟩ := nonneg_iff.mp h
  exact num_le_num.mpr (le_refl _)

theorem ofRatio_nonneg (n d : Nat) : 0 ≤ ofRatio false n d :=
  nonneg_iff.mpr ⟨false, _, rankOf_le n d, rfl, by simp⟩

/-! ## Exact sums -/

theorem expo_ge (r : Nat) : -1074 ≤ expo r := by
  unfold expo
  rw [leastNormal_eq]
  split <;> omega

theorem mant_eq_zero_iff {r : Nat} : mant r = 0 ↔ r = 0 := by
  unfold mant
  rw [leastNormal_eq]
  split <;> omega

/-- A significand in a smaller unit is the same number. -/
theorem shiftLeft_mul_zpow {m : Nat} {e g : ℤ} (h : g ≤ e) :
    ((m <<< (e - g).toNat : Nat) : ℚ) * 2 ^ g = m * 2 ^ e := by
  have hpow : (2 : ℚ) ^ (e - g).toNat = 2 ^ (e - g) := by
    rw [← zpow_natCast]
    congr 1
    omega
  rw [Nat.shiftLeft_eq]
  push_cast
  rw [hpow, mul_assoc, ← zpow_add₀ (by norm_num), sub_add_cancel]

/-- What `ofDyadic` rounds is the number it is given. -/
theorem dyadic_quotient (m : Nat) (e : ℤ) :
    ((m <<< e.toNat : Nat) : ℚ) / (1 <<< (-e).toNat : Nat) = m * 2 ^ e := by
  simpa using shifted_quotient (-e) m 1

theorem one_shiftLeft_pos (k : Nat) : 0 < 1 <<< k := by
  rw [Nat.one_shiftLeft]
  exact Nat.two_pow_pos k

/-- The rank of a dyadic number is at least that of any number up to it. -/
theorem le_rank_ofDyadic {r m : Nat} {e : ℤ} (hr : r ≤ infRank) (h : magnitude r ≤ m * 2 ^ e) :
    r ≤ rankOf (m <<< e.toNat) (1 <<< (-e).toNat) :=
  le_rankOf hr (one_shiftLeft_pos _) (by rw [dyadic_quotient]; exact h)

theorem signed_of_zero {s : Bool} {n : Nat} (h : s = true → n = 0) : signed s n = n := by
  cases s with
  | false => rfl
  | true => simp [signed, h rfl]

theorem num_add_num (s t : Bool) {r q : Nat} (h : r ≤ infRank) (k : q ≤ infRank) :
    num s r h + num t q k =
      if r = infRank then if q = infRank ∧ s ≠ t then .nan else num s r h
      else if q = infRank then num t q k
      else addDyadic s (mant r) (expo r) t (mant q) (expo q) := rfl

/-- The sum of finite numbers of which none is below zero. -/
theorem addDyadic_nonneg {s t : Bool} {r q : Nat} (hr : r < infRank) (hq : q < infRank) (hs : s = true → r = 0)
    (ht : t = true → q = 0) :
    ∃ u p hp, addDyadic s (mant r) (expo r) t (mant q) (expo q) = num u p hp ∧ (u = true → p = 0) ∧
      r ≤ p ∧ q ≤ p := by
  have hms : ∀ k : Nat, signed s (mant r <<< k) = (mant r <<< k : Nat) := fun k =>
    signed_of_zero fun h => by simp [mant_eq_zero_iff.mpr (hs h)]
  have hmt : ∀ k : Nat, signed t (mant q <<< k) = (mant q <<< k : Nat) := fun k =>
    signed_of_zero fun h => by simp [mant_eq_zero_iff.mpr (ht h)]
  have hmr := shiftLeft_mul_zpow (m := mant r) (min_le_left (expo r) (expo q))
  have hmq := shiftLeft_mul_zpow (m := mant q) (min_le_right (expo r) (expo q))
  unfold addDyadic
  simp only [hms, hmt, ← Nat.cast_add]
  generalize min (expo r) (expo q) = g at *
  generalize mant r <<< (expo r - g).toNat = a at *
  generalize mant q <<< (expo q - g).toNat = b at *
  have hpow : (0 : ℚ) < 2 ^ g := by positivity
  by_cases h0 : a + b = 0
  · -- Both numbers are zero.
    obtain ⟨rfl, rfl⟩ := Nat.add_eq_zero_iff.mp h0
    rw [Nat.cast_zero, zero_mul] at hmr hmq
    obtain rfl := magnitude_eq_zero_iff.mp hmr.symm
    obtain rfl := magnitude_eq_zero_iff.mp hmq.symm
    exact ⟨s && t, 0, Nat.zero_le _, rfl, fun _ => rfl, le_refl _, le_refl _⟩
  · have hpos : ¬ ((a + b : Nat) : ℤ) < 0 := by omega
    rw [if_neg (by omega), decide_eq_false hpos]
    refine ⟨false, _, rankOf_le .., rfl, by simp, ?_, ?_⟩
    · refine le_rank_ofDyadic hr.le ?_
      rw [magnitude, ← hmr, Int.natAbs_natCast]
      exact mul_le_mul_of_nonneg_right (by exact_mod_cast Nat.le_add_right a b) hpow.le
    · refine le_rank_ofDyadic hq.le ?_
      rw [magnitude, ← hmq, Int.natAbs_natCast]
      exact mul_le_mul_of_nonneg_right (by exact_mod_cast Nat.le_add_left b a) hpow.le

/-! ## Sums of numbers not below zero -/

theorem num_add_nonneg {s t : Bool} {r q : Nat} (h : r ≤ infRank) (k : q ≤ infRank) (hs : s = true → r = 0)
    (ht : t = true → q = 0) :
    ∃ u p hp, num s r h + num t q k = num u p hp ∧ (u = true → p = 0) ∧ r ≤ p ∧ q ≤ p := by
  have hinf : infRank ≠ 0 := by decide
  rw [num_add_num]
  by_cases hr : r = infRank
  · have hmixed : ¬ (q = infRank ∧ s ≠ t) := by
      intro ⟨hq, hst⟩
      rw [hr] at hs
      rw [hq] at ht
      exact hst ((Bool.eq_false_iff.mpr (hinf ∘ hs)).trans (Bool.eq_false_iff.mpr (hinf ∘ ht)).symm)
    rw [if_pos hr, if_neg hmixed]
    exact ⟨s, r, h, rfl, hs, Nat.le_refl _, hr ▸ k⟩
  · rw [if_neg hr]
    by_cases hq : q = infRank
    · rw [if_pos hq]
      exact ⟨t, q, k, rfl, ht, hq ▸ h, Nat.le_refl _⟩
    · rw [if_neg hq]
      exact addDyadic_nonneg (Nat.lt_of_le_of_ne h hr) (Nat.lt_of_le_of_ne k hq) hs ht

/-- The sum is not below zero and not below either number. -/
theorem add_spec {x y : Double} (hx : 0 ≤ x) (hy : 0 ≤ y) : 0 ≤ x + y ∧ x ≤ x + y ∧ y ≤ x + y := by
  obtain ⟨s, r, h, rfl, hs⟩ := nonneg_iff.mp hx
  obtain ⟨t, q, k, rfl, ht⟩ := nonneg_iff.mp hy
  obtain ⟨u, p, hp, hsum, hu, hrp, hqp⟩ := num_add_nonneg h k hs ht
  rw [hsum]
  refine ⟨nonneg_iff.mpr ⟨u, p, hp, rfl, hu⟩, ?_, ?_⟩
  · rw [num_le_num, place, place, signed_of_zero hs, signed_of_zero hu]
    exact_mod_cast hrp
  · rw [num_le_num, place, place, signed_of_zero ht, signed_of_zero hu]
    exact_mod_cast hqp

/-! ## Sums with zero -/

theorem ofDyadic_eq_num {s : Bool} {m r : Nat} {e : ℤ} (h : r ≤ infRank) (hm : (m : ℚ) * 2 ^ e = magnitude r) :
    ofDyadic s m e = num s r h := by
  have hrank : rankOf (m <<< e.toNat) (1 <<< (-e).toNat) = r :=
    rankOf_of_eq h (one_shiftLeft_pos _) ((dyadic_quotient m e).trans hm)
  unfold ofDyadic ofRatio
  simp only [hrank]

/-- Zero adds nothing, but makes -0 a zero without a sign. -/
theorem add_zero_eq {x : Double} (hx : x ≠ zero true) : x + 0 = x := by
  cases x with
  | nan => rfl
  | num s r h =>
    have hinf : (0 : Nat) ≠ infRank := by decide
    have hleast : expo 0 = -1074 := by decide
    have hmin : min (expo r) (-1074) = -1074 := min_eq_right (expo_ge r)
    rw [zero_eq, num_add_num]
    by_cases hr : r = infRank
    · rw [if_pos hr, if_neg fun h => hinf h.1]
    · have hnum := shiftLeft_mul_zpow (m := mant r) (expo_ge r)
      rw [if_neg hr, if_neg hinf]
      unfold addDyadic
      rw [hleast, hmin, mant_eq_zero_iff.mpr rfl]
      simp only [Nat.zero_shiftLeft]
      generalize mant r <<< (expo r - -1074).toNat = a at *
      have hsum : signed s a + signed false 0 = signed s a := Int.add_zero _
      rw [hsum]
      by_cases ha : a = 0
      · have hr0 : r = 0 := by
          rw [ha, Nat.cast_zero, zero_mul] at hnum
          exact magnitude_eq_zero_iff.mp hnum.symm
        subst ha hr0
        cases s with
        | false => rfl
        | true => exact absurd rfl hx
      · have hsign : decide (signed s a < 0) = s := by
          cases s with
          | false => simp [signed]
          | true => simp [signed, Nat.pos_of_ne_zero ha]
        have habs : (signed s a).natAbs = a := by cases s <;> simp [signed]
        have hne : signed s a ≠ 0 := by
          rw [← Int.natAbs_ne_zero, habs]
          exact ha
        rw [if_neg hne, hsign, habs]
        exact ofDyadic_eq_num h hnum

theorem addDyadic_ne_negZero {s : Bool} {m k : Nat} {e f : ℤ} (h : -1074 ≤ min e f) :
    addDyadic s m e false k f ≠ zero true := by
  unfold addDyadic
  dsimp only
  generalize signed s _ + signed false _ = n
  by_cases hn : n = 0
  · rw [if_pos hn, Bool.and_false]
    intro h
    injection h with hs
    cases hs
  · -- The sum is at least one unit, and that is the least subnormal or more.
    have hone : magnitude 1 ≤ n.natAbs * 2 ^ min e f := by
      have hunit : magnitude 1 = 1 * 2 ^ (-1074 : ℤ) := by
        simpa using magnitude_grid (e := 0) (m := 1) (Or.inl rfl) (by decide)
      have h1 : (1 : ℚ) ≤ n.natAbs := by exact_mod_cast Int.natAbs_pos.mpr hn
      rw [hunit]
      exact mul_le_mul h1 (zpow_le_zpow_right₀ (by norm_num) h) (by positivity) (by positivity)
    have hrank := le_rank_ofDyadic (by decide) hone
    rw [if_neg hn]
    intro h
    injection h with _ h0
    omega

/-- No sum with a number that has no sign is -0. -/
theorem add_ne_negZero (x : Double) (n d : Nat) : x + ofRatio false n d ≠ zero true := by
  cases x with
  | nan => exact Double.noConfusion
  | num s r h =>
    unfold ofRatio
    rw [num_add_num]
    by_cases hr : r = infRank
    · rw [if_pos hr]
      split
      · exact Double.noConfusion
      · intro h
        injection h with _ h0
        exact absurd (h0.symm.trans hr) (by decide)
    · rw [if_neg hr]
      split
      · intro h
        injection h with hs
        cases hs
      · exact addDyadic_ne_negZero (le_min (expo_ge r) (expo_ge _))

end NodeGauge.Double
