/-
  NodeGauge.Proofs.Rpl — what the stake of RPL is worth, at the edges of the doubles. A
  power of finite numbers is defined exactly when it is finite (`power_ok_iff`), so what is
  minted is not below zero (`issuance_nonneg`), but it can be infinite. The node's part of
  it is then a NaN where the infinity meets a zero, and nowhere else is it one or below
  zero (`estimatedRewards_cases`). The return is a NaN only where that part is
  (`apr_cases`), and the collateral never is (`collateralRatio_nonneg`).
-/

import NodeGauge.Proofs.Double.Edges
import NodeGauge.Proofs.Json.Integers
import NodeGauge.Proofs.Wei.Totals
import NodeGauge.Rpl

/-! ## Amounts in ether -/

namespace NodeGauge.Wei

open Double (magnitude rounded num)

variable {v t : Wei} {x y : Double}

theorem toEther_eq_num (h : toEther v = .ok x) : IsAmount v ∧ x = num false (etherRank v) (etherRank_le v) :=
  toEther_ok_iff.mp h

theorem toEther_isFinite (h : toEther v = .ok x) : x.isFinite = true := by
  obtain ⟨hv, rfl⟩ := toEther_eq_num h
  exact Double.isFinite_num.mpr (etherRank_lt hv)

theorem toEther_pos_iff (h : toEther v = .ok x) : 0 < x ↔ v ≠ 0 := by
  obtain ⟨hv, rfl⟩ := toEther_eq_num h
  have hzero : etherRank v = 0 ↔ v = 0 := rank_eq_zero_iff hv.1
  rw [Double.pos_iff, ne_eq, ← hzero]
  constructor
  · intro ⟨r, hr, heq, hne⟩
    injection heq with _ hrank
    rwa [hrank]
  · intro hne
    exact ⟨_, etherRank_le v, rfl, hne⟩

theorem toEther_isZero_iff (h : toEther v = .ok x) : x.isZero = true ↔ v = 0 := by
  obtain ⟨hv, rfl⟩ := toEther_eq_num h
  rw [← rank_eq_zero_iff hv.1]
  simp [Double.isZero, etherRank]

theorem magnitude_etherRank_lt (h : IsAmount v) : magnitude (etherRank v) < 2 ^ 198 := by
  have hquot := h.quotient_lt
  have hle := magnitude_etherRank_le h
  norm_num at hquot hle ⊢
  linarith

theorem le_magnitude_etherRank (h : 0 < v) : (2 : ℚ) ^ (-60 : ℤ) ≤ magnitude (etherRank v) := by
  have hle := Double.magnitude_strictMono.monotone (le_rank h)
  rw [Double.magnitude_power] at hle
  exact hle

/-- A product of two amounts is far from the largest double. -/
theorem isFinite_toEther_mul (hx : toEther v = .ok x) (hy : toEther t = .ok y) : (x * y).isFinite = true := by
  obtain ⟨hv, rfl⟩ := toEther_eq_num hx
  obtain ⟨ht, rfl⟩ := toEther_eq_num hy
  rw [Double.num_mul (etherRank_lt hv) (etherRank_lt ht), Double.isFinite_num]
  refine Double.rounded_lt_infRank (Double.magnitude_mul_nonneg ..) ?_
  calc magnitude (etherRank v) * magnitude (etherRank t) ≤ 2 ^ 198 * 2 ^ 198 :=
        mul_le_mul (magnitude_etherRank_lt hv).le (magnitude_etherRank_lt ht).le (Double.magnitude_nonneg _) (by positivity)
    _ < 2 ^ 970 := by
      rw [← pow_add]
      exact pow_lt_pow_right₀ (by norm_num) (by norm_num)
    _ ≤ (2 ^ 54 - 1) * 2 ^ 970 := le_mul_of_one_le_left (by positivity) (by norm_num)

/-- Of two amounts the quotient is far below the largest double. -/
theorem magnitude_quotient_lt (hv : IsAmount v) (ht : 0 < t) :
    magnitude (etherRank v) / magnitude (etherRank t) < (2 ^ 54 - 1) * 2 ^ 970 := by
  calc magnitude (etherRank v) / magnitude (etherRank t) ≤ 2 ^ 198 / 2 ^ (-60 : ℤ) :=
        div_le_div₀ (by positivity) (magnitude_etherRank_lt hv).le (by positivity) (le_magnitude_etherRank ht)
    _ = 2 ^ (258 : ℤ) := by
      rw [← zpow_natCast, ← zpow_sub₀ (by norm_num)]
      rfl
    _ < 2 ^ (970 : ℤ) := zpow_lt_zpow_right₀ (by norm_num) (by norm_num)
    _ = 2 ^ 970 := zpow_natCast 2 970
    _ ≤ (2 ^ 54 - 1) * 2 ^ 970 := le_mul_of_one_le_left (by positivity) (by norm_num)

/-- And far above the least one. -/
theorem least_le_magnitude_quotient (hv : 0 < v) (ht : IsAmount t) (h0 : 0 < t) :
    magnitude 1 ≤ magnitude (etherRank v) / magnitude (etherRank t) := by
  have hpos : (0 : ℚ) < 2 ^ (-60 : ℤ) := by positivity
  rw [Double.magnitude_least]
  calc (2 : ℚ) ^ (-1074 : ℤ) ≤ 2 ^ (-258 : ℤ) := zpow_le_zpow_right₀ (by norm_num) (by norm_num)
    _ = 2 ^ (-60 : ℤ) / 2 ^ 198 := by
      rw [← zpow_natCast, ← zpow_sub₀ (by norm_num)]
      rfl
    _ ≤ magnitude (etherRank v) / magnitude (etherRank t) :=
      div_le_div₀ (Double.magnitude_nonneg _) (le_magnitude_etherRank hv) (hpos.trans_le (le_magnitude_etherRank h0))
        (magnitude_etherRank_lt ht).le

/-- So it is finite, and zero only when the amount that is divided is. -/
theorem toEther_div (hx : toEther v = .ok x) (hy : toEther t = .ok y) (h0 : t ≠ 0) :
    0 ≤ x / y ∧ (x / y).isFinite = true ∧ ((x / y).isZero = true ↔ v = 0) := by
  have hnonneg := Double.div_nonneg (toEther_nonneg hx) ((toEther_pos_iff hy).mpr h0) (Or.inl (toEther_isFinite hx))
  obtain ⟨hv, rfl⟩ := toEther_eq_num hx
  obtain ⟨ht, rfl⟩ := toEther_eq_num hy
  have hpos : 0 < t := lt_of_le_of_ne ht.1 (Ne.symm h0)
  have hne : etherRank t ≠ 0 := (rank_eq_zero_iff ht.1).not.mpr h0
  rw [Double.num_div (etherRank_lt hv) (etherRank_lt ht) hne] at hnonneg ⊢
  rw [Double.isFinite_num, Double.isZero, beq_iff_eq]
  refine ⟨hnonneg, Double.rounded_lt_infRank (Double.magnitude_div_nonneg ..) (magnitude_quotient_lt hv hpos), ?_⟩
  constructor
  · contrapose!
    intro hv0
    have hrank := Double.le_rounded (by decide)
      (least_le_magnitude_quotient (lt_of_le_of_ne hv.1 (Ne.symm hv0)) ht hpos)
    omega
  · rintro rfl
    rw [show etherRank 0 = 0 from rfl, Double.magnitude_zero, zero_div, Double.rounded_zero]

end NodeGauge.Wei

namespace NodeGauge.Rpl

variable {e t p v : Wei} {x y z q : Double}

/-! ## Powers -/

/-- A power of finite numbers is defined when it is finite, and any other always. -/
theorem power_ok_iff :
    power x y = .ok z ↔ z = Double.pow x y ∧ (x.isFinite = true → y.isFinite = true → z.isFinite = true) := by
  unfold power
  generalize Double.pow x y = p
  by_cases hxy : x.isFinite = true ∧ y.isFinite = true
  · obtain ⟨hx, hy⟩ := hxy
    simp only [hx, hy, and_self, if_true, true_imp_iff]
    by_cases hp : p.isFinite = true
    · obtain ⟨hnan, hinf⟩ := Double.isFinite_iff.mp hp
      rw [if_neg (by simp [hnan, hinf]), if_neg (by simp [hinf]), Except.ok.injEq, eq_comm]
      exact (and_iff_left_of_imp fun h => h ▸ hp).symm
    · have hnone : ¬ (z = p ∧ z.isFinite = true) := fun h => hp (h.1 ▸ h.2)
      rw [iff_false_right hnone]
      rw [Double.isFinite_iff, not_and, Bool.not_eq_false] at hp
      split
      · nofun
      · next hdefined =>
        rw [if_pos (hp (by simpa using mt Or.inl hdefined))]
        nofun
  · simp only [if_neg hxy, Except.ok.injEq]
    constructor
    · intro h
      exact ⟨h.symm, fun hx hy => absurd ⟨hx, hy⟩ hxy⟩
    · intro h
      exact h.1.symm

theorem exists_power_iff :
    (∃ p, power x y = .ok p) ↔ (x.isFinite = true → y.isFinite = true → (Double.pow x y).isFinite = true) := by
  simp only [power_ok_iff, exists_eq_left]

/-! ## What is minted -/

theorem clamp_nonneg (h : x.isNaN = false) : 0 ≤ clamp x := by
  unfold clamp
  split
  · exact Double.ofRatio_nonneg 0 1
  · next hx =>
    cases x with
    | nan => cases h
    | num s r hr =>
      rw [Double.lt_iff, Double.zero_eq, Double.lt, decide_eq_true_iff] at hx
      rw [Double.zero_eq, Double.num_le_num]
      omega

/-- It can be infinite, but it is no NaN. -/
theorem issuance_nonneg (hx : x.isFinite = true) (hy : y.isFinite = true) (hz : z.isFinite = true) {m : Double}
    (h : issuance x y z = .ok m) : 0 ≤ m := by
  obtain ⟨p, hp, hm⟩ := except_bind_ok.mp h
  cases hm
  have hfinite : p.isFinite = true := (power_ok_iff.mp hp).2 hx hy
  exact clamp_nonneg (Double.isNaN_mul_of_isFinite (Double.isFinite_sub_one hfinite) hz)

/-! ## The node's part -/

/-- An infinity meets a zero on the way to the node's part of what is minted: infinitely
    much is minted and the node's stake is zero, or the part is infinite and nothing of it
    goes to the operators. -/
def Clash (effective totalEffective percent : Wei) (issuance : Double) : Prop :=
  totalEffective ≠ 0 ∧
    ∃ x y, Wei.toEther effective = .ok x ∧ Wei.toEther totalEffective = .ok y ∧
      (issuance.isInf = true ∧ effective = 0 ∨ (x / y * issuance).isInf = true ∧ percent = 0)

variable (he : Wei.toEther e = .ok x) (ht : Wei.toEther t = .ok y) (hp : Wei.toEther p = .ok q) (hz : 0 ≤ z)

include he ht hp hz

theorem estimatedRewards_cases :
    0 ≤ estimatedRewards x y z q ∧ ¬ Clash e t p z ∨ (estimatedRewards x y z q).isNaN = true ∧ Clash e t p z := by
  have hclash : Clash e t p z ↔ t ≠ 0 ∧ (z.isInf = true ∧ e = 0 ∨ (x / y * z).isInf = true ∧ p = 0) := by
    simp [Clash, he, ht]
  have hpos := Wei.toEther_pos_iff ht
  rw [hclash]
  unfold estimatedRewards
  split
  · next hle =>
    have h0 : t = 0 := by
      by_contra hne
      exact Double.not_le_zero_of_pos (hpos.mpr hne) hle
    exact Or.inl ⟨Double.ofRatio_nonneg 0 1, fun h => h.1 h0⟩
  · next hle =>
    have h0 : t ≠ 0 := hpos.mp (Double.pos_of_not_le (Double.not_isNaN_of_nonneg (Wei.toEther_nonneg ht)) hle)
    obtain ⟨hshare, hfinite, hzero⟩ := Wei.toEther_div he ht h0
    have hq := Wei.toEther_nonneg hp
    have hqzero := Wei.toEther_isZero_iff hp
    have hqfinite := (Double.isFinite_iff.mp (Wei.toEther_isFinite hp)).2
    have hsharefinite := (Double.isFinite_iff.mp hfinite).2
    -- the share and the percentage are finite: only the issuance and the part can be infinite
    rcases Double.mul_cases hshare hz with ⟨hpart, hno⟩ | ⟨hnan, hmeet⟩
    · simp only [hsharefinite, hzero, Bool.false_eq_true, false_and, false_or] at hno
      rcases Double.mul_cases hpart hq with ⟨hnonneg, hno'⟩ | ⟨hnan, hmeet⟩
      · simp only [hqfinite, hqzero, Bool.false_eq_true, and_false, or_false] at hno'
        exact Or.inl ⟨hnonneg, fun h => h.2.elim (fun h => hno h.symm) hno'⟩
      · simp only [hqfinite, hqzero, Bool.false_eq_true, and_false, or_false] at hmeet
        exact Or.inr ⟨hnan, h0, Or.inr hmeet⟩
    · simp only [hsharefinite, hzero, Bool.false_eq_true, false_and, false_or] at hmeet
      exact Or.inr ⟨Double.isNaN_mul_left hnan q, h0, Or.inl hmeet.symm⟩

omit he ht hp hz

/-! ## The return -/

section

variable (hx : Wei.toEther v = .ok x) (hy : y.isFinite = true)

include hx hy

/-- Behind the guard there is a stake and there are hours. -/
theorem pos_of_guard (hguard : ¬ (x ≤ 0 ∨ y ≤ 0)) : 0 < x ∧ 0 < y := by
  obtain ⟨hstake, hhours⟩ := not_or.mp hguard
  exact ⟨Double.pos_of_not_le (Double.not_isNaN_of_nonneg (Wei.toEther_nonneg hx)) hstake,
    Double.pos_of_not_le (Double.isFinite_iff.mp hy).1 hhours⟩

theorem apr_nonneg (hr : 0 ≤ z) : 0 ≤ apr z x y := by
  unfold apr
  split
  · exact Double.ofRatio_nonneg 0 1
  · next hguard =>
    obtain ⟨hx0, hy0⟩ := pos_of_guard hx hy hguard
    have hrate := Double.div_nonneg (Double.div_nonneg hr hx0 (Or.inr (Wei.toEther_isFinite hx))) hy0 (Or.inr hy)
    have hyear := Double.mul_nonneg_of_pos (y := hoursPerYear) hrate (by decide +kernel) (by decide +kernel)
    exact Double.mul_nonneg_of_pos hyear (by decide +kernel) (by decide +kernel)

/-- The return is a NaN where the node's part is, unless a guard is in its way. -/
theorem apr_cases (hr : 0 ≤ z ∨ z.isNaN = true) :
    0 ≤ apr z x y ∧ ¬ (z.isNaN = true ∧ v ≠ 0 ∧ 0 < y) ∨ (apr z x y).isNaN = true ∧ z.isNaN = true ∧ v ≠ 0 ∧ 0 < y := by
  rw [← Wei.toEther_pos_iff hx]
  rcases hr with hr | hr
  · refine Or.inl ⟨apr_nonneg hx hy hr, ?_⟩
    simp [Double.not_isNaN_of_nonneg hr]
  · unfold apr
    split
    · next hguard =>
      refine Or.inl ⟨Double.ofRatio_nonneg 0 1, fun ⟨_, hx0, hy0⟩ => ?_⟩
      exact hguard.elim (Double.not_le_zero_of_pos hx0) (Double.not_le_zero_of_pos hy0)
    · next hguard =>
      obtain ⟨hx0, hy0⟩ := pos_of_guard hx hy hguard
      have hrate := Double.isNaN_div_left (Double.isNaN_div_left hr x) y
      exact Or.inr ⟨Double.isNaN_mul_left (Double.isNaN_mul_left hrate _) _, hr, hx0, hy0⟩

end

/-! ## The collateral -/

theorem collateralRatio_nonneg (hx : Wei.toEther p = .ok x) (hy : Wei.toEther v = .ok y) (n : ℕ) :
    0 ≤ collateralRatio x y (Double.ofInt n) := by
  unfold collateralRatio
  split
  · exact Double.ofRatio_nonneg 0 1
  · next hguard =>
    have hfinite := Wei.isFinite_toEther_mul hx hy
    have hworth := Double.mul_nonneg (Wei.toEther_nonneg hx) (Wei.toEther_nonneg hy) (Double.isFinite_iff.mp hfinite).1
    have hcount : 0 < Double.ofInt n := Double.pos_of_not_le rfl hguard
    have hbond := Double.mul_pos_of_one_le (y := Settings.bondSize) hcount (by decide +kernel) (by decide +kernel)
    exact Double.div_nonneg hworth hbond (Or.inl hfinite)

end NodeGauge.Rpl
