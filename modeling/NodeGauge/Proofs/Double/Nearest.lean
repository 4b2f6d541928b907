/-
  NodeGauge.Proofs.Double.Nearest — the double nearest to a number. A finite double stands
  for its `value`. It is nearest to a number when no finite double is nearer and, should one
  be equally near, its significand is even (`Nearest`). Of the doubles without a sign one
  alone is, and it is the one that a quotient is rounded to (`nearest_iff`), as long as the
  quotient is below the middle between the largest finite double and the power of two that
  follows it (`rankOf_lt_infRank`).
-/

import NodeGauge.Proofs.Double.Rounding

namespace NodeGauge.Double

/-! ## One rank -/

theorem even_mant_iff {r : ℕ} : Even (mant r) ↔ Even r := by
  unfold mant
  rw [leastNormal_eq, Nat.even_iff, Nat.even_iff]
  split <;> omega

/-- The rank of a power of two. -/
theorem magnitude_power (e : ℕ) : magnitude ((e + 1) * 2 ^ 52) = 2 ^ ((e : ℤ) - 1022) := by
  have h := magnitude_grid (e := e) (m := 2 ^ 52) (Or.inr (le_refl _)) (by decide)
  rw [show (e + 1) * 2 ^ 52 = e * 2 ^ 52 + 2 ^ 52 by ring, h, Nat.cast_pow, Nat.cast_ofNat, ← zpow_natCast,
    ← zpow_add₀ (by norm_num)]
  congr 1
  omega

theorem magnitude_nonneg (r : ℕ) : 0 ≤ magnitude r := by
  unfold magnitude
  positivity

/-- Between two ranks that are equally near lies none, and of two neighbours one is odd. -/
theorem NearestRank.unique {x : ℚ} {r q : ℕ} (hr : NearestRank x r) (hq : NearestRank x q) : r = q := by
  wlog hlt : r < q generalizing r q
  · rcases Nat.lt_or_ge q r with h | h
    · exact (this hq hr h).symm
    · omega
  have hdist : |magnitude q - x| = |magnitude r - x| := le_antisymm (hq.near r) (hr.near q)
  obtain ⟨a, ha⟩ := hr.tie q hlt.ne' hdist
  obtain ⟨b, hb⟩ := hq.tie r hlt.ne hdist.symm
  have hbelow := magnitude_strictMono (by omega : r < r + 1)
  have habove := magnitude_strictMono (by omega : r + 1 < q)
  have hnext := hr.near (r + 1)
  have hmiddle : magnitude q - x = -(magnitude r - x) := by
    rcases abs_eq_abs.mp hdist with h | h
    · linarith
    · exact h
  rw [abs_of_nonpos (by linarith)] at hnext
  rcases abs_cases (magnitude (r + 1) - x) with ⟨h, -⟩ | ⟨h, -⟩ <;> linarith

theorem two_mul_ge {a b x : ℚ} (hab : a < b) (h : |b - x| ≤ |a - x|) : a + b ≤ 2 * x := by
  by_contra hlt
  rw [abs_of_nonneg (by linarith)] at h
  rcases abs_cases (a - x) with ⟨habs, -⟩ | ⟨habs, -⟩ <;> linarith

theorem two_mul_le {a b x : ℚ} (hab : a < b) (h : |a - x| ≤ |b - x|) : 2 * x ≤ a + b := by
  by_contra hlt
  rw [abs_of_nonpos (by linarith)] at h
  rcases abs_cases (b - x) with ⟨habs, -⟩ | ⟨habs, -⟩ <;> linarith

/-- Were the greater number rounded down below the other, both would lie half way. -/
theorem NearestRank.mono {x y : ℚ} {r q : ℕ} (hr : NearestRank x r) (hq : NearestRank y q) (h : x ≤ y) : r ≤ q := by
  by_contra hlt
  have hmag := magnitude_strictMono (not_le.mp hlt)
  have hx := two_mul_ge hmag (hr.near q)
  have hy := two_mul_le hmag (hq.near r)
  obtain rfl : x = y := by linarith
  exact hlt (hr.unique hq).le

/-- A greater quotient has no smaller rank. -/
theorem rankOf_mono {n d n' d' : ℕ} (hd : 0 < d) (hd' : 0 < d') (h : (n : ℚ) / d ≤ n' / d') :
    rankOf n d ≤ rankOf n' d' := by
  obtain ⟨r, hr, hnear⟩ := rankOf_nearest n hd
  obtain ⟨q, hq, hnear'⟩ := rankOf_nearest n' hd'
  have hle := hnear.mono hnear' h
  omega

/-- The rank of a quotient depends on the quotient alone. -/
theorem rankOf_congr {n d n' d' : ℕ} (hd : 0 < d) (hd' : 0 < d') (h : (n : ℚ) / d = n' / d') :
    rankOf n d = rankOf n' d' :=
  Nat.le_antisymm (rankOf_mono hd hd' h.le) (rankOf_mono hd' hd h.ge)

theorem magnitude_largest : magnitude (infRank - 1) = (2 ^ 54 - 2) * 2 ^ 970 := by
  have hunit : (2 : ℚ) ^ (((2045 : ℕ) : ℤ) - 1074) = 2 * 2 ^ 970 := by
    rw [← pow_succ', ← zpow_natCast]
    norm_num
  rw [show infRank - 1 = 2045 * 2 ^ 52 + (2 ^ 53 - 1) by decide, magnitude_grid (Or.inr (by decide)) (by decide), hunit,
    Nat.cast_sub (by decide)]
  generalize (2 : ℚ) ^ 970 = u
  push_cast
  ring

/-- Half way from the largest finite rank to infinity lies `(2 ^ 54 - 1) · 2 ^ 970`. -/
theorem rankOf_lt_infRank {n d : ℕ} (hd : 0 < d) (h : (n : ℚ) / d < (2 ^ 54 - 1) * 2 ^ 970) : rankOf n d < infRank := by
  obtain ⟨r, hr, hnear⟩ := rankOf_nearest n hd
  have hinf : magnitude infRank = 2 ^ 54 * 2 ^ 970 := by
    rw [show infRank = (2046 + 1) * 2 ^ 52 by decide, magnitude_power, ← pow_add, ← zpow_natCast]
    norm_num
  rw [hr]
  by_contra hge
  have hle : magnitude infRank ≤ magnitude r := magnitude_strictMono.monotone (by omega)
  have hcloser := hnear.near (infRank - 1)
  have hunit : (0 : ℚ) < 2 ^ 970 := by positivity
  rw [hinf] at hle
  rw [magnitude_largest] at hcloser
  generalize (2 : ℚ) ^ 970 = u at *
  rw [abs_of_nonneg (by linarith)] at hcloser
  rcases abs_cases ((2 ^ 54 - 2) * u - n / d) with ⟨habs, -⟩ | ⟨habs, -⟩ <;> linarith

/-! ## The rank of a number -/

/-- The rank that a number is rounded to, 0 if it is below zero. -/
def rounded (x : ℚ) : ℕ := rankOf x.num.toNat x.den

theorem rounded_le (x : ℚ) : rounded x ≤ infRank := rankOf_le ..

section

variable {x y : ℚ} (hx : 0 ≤ x)

include hx

theorem quotient_eq : (x.num.toNat : ℚ) / x.den = x := by
  have hnum : ((x.num.toNat : ℤ) : ℚ) = x.num := by rw [Int.toNat_of_nonneg (Rat.num_nonneg.mpr hx)]
  rw [← Int.cast_natCast, hnum, Rat.num_div_den]

theorem rounded_nearest : ∃ r, rounded x = min r infRank ∧ NearestRank x r := by
  have h := rankOf_nearest x.num.toNat x.den_pos
  rwa [quotient_eq hx] at h

theorem rounded_lt_infRank (h : x < (2 ^ 54 - 1) * 2 ^ 970) : rounded x < infRank :=
  rankOf_lt_infRank x.den_pos (by rwa [quotient_eq hx])

theorem rounded_of_eq {r : ℕ} (hr : r ≤ infRank) (h : x = magnitude r) : rounded x = r :=
  rankOf_of_eq hr x.den_pos ((quotient_eq hx).trans h)

end

theorem rankOf_eq_rounded {n d : ℕ} (hd : 0 < d) : rankOf n d = rounded (n / d) :=
  rankOf_congr hd (Rat.den_pos _) (quotient_eq (by positivity)).symm

/-! ## One double -/

def significand : Double → ℕ
  | .nan => 0
  | .num _ r _ => mant r

/-- The number a finite double stands for; a NaN stands for none and is given 0. -/
def value : Double → ℚ
  | .nan => 0
  | .num s r _ => if s then -magnitude r else magnitude r

/-- No finite double is nearer to the number, and where another is equally near the
    significand is even. -/
structure Nearest (x : Double) (q : ℚ) : Prop where
  finite : x.isFinite = true
  near : ∀ y : Double, y.isFinite = true → |x.value - q| ≤ |y.value - q|
  tie : ∀ y : Double, y.isFinite = true → y.value ≠ x.value → |y.value - q| = |x.value - q| → Even x.significand

theorem isFinite_num {s : Bool} {r : ℕ} {h : r ≤ infRank} : (num s r h).isFinite = true ↔ r < infRank := by
  rw [isFinite, decide_eq_true_iff]

@[simp] theorem value_ofRatio (n d : ℕ) : (ofRatio false n d).value = magnitude (rankOf n d) := rfl

/-- Below zero is no nearest to a number that is not: zero is nearer. -/
theorem Nearest.sign {s : Bool} {r : ℕ} {h : r ≤ infRank} {q : ℚ} (hq : 0 ≤ q) (hx : (num s r h).Nearest q) :
    s = true → r = 0 := by
  rintro rfl
  by_contra hr
  have hpos : 0 < magnitude r := magnitude_zero ▸ magnitude_strictMono (Nat.pos_of_ne_zero hr)
  have hnear := hx.near (zero false) rfl
  have hvalue : (zero false).value = 0 := magnitude_zero
  have hneg : (num true r h).value = -magnitude r := rfl
  rw [hvalue, hneg, abs_of_nonpos (by linarith), abs_of_nonpos (by linarith)] at hnear
  linarith

variable {n d : ℕ} {x : Double}

/-- A finite double is as far from a number that is not below zero as a rank at the least. -/
theorem exists_rank_near {q : ℚ} (hq : 0 ≤ q) {y : Double} (hy : y.isFinite = true) :
    ∃ p < infRank, |magnitude p - q| ≤ |y.value - q| ∧ (|magnitude p - q| = |y.value - q| → y.value = magnitude p) := by
  cases y with
  | nan => cases hy
  | num s p hp =>
    cases s with
    | false => exact ⟨p, isFinite_num.mp hy, le_refl _, fun _ => rfl⟩
    | true =>
      have hnonneg := magnitude_nonneg p
      have hneg : (num true p hp).value = -magnitude p := rfl
      refine ⟨0, by decide, ?_⟩
      rw [hneg, magnitude_zero, abs_of_nonpos (by linarith), abs_of_nonpos (by linarith)]
      exact ⟨by linarith, fun h => by linarith⟩

theorem ofRatio_nearest (hd : 0 < d) (hfinite : rankOf n d < infRank) : (ofRatio false n d).Nearest (n / d) := by
  obtain ⟨r, hr, hnear⟩ := rankOf_nearest n hd
  have hrank : rankOf n d = r := by omega
  have hq : (0 : ℚ) ≤ n / d := by positivity
  refine ⟨isFinite_num.mpr hfinite, fun y hy => ?_, fun y hy hne heq => ?_⟩
  · obtain ⟨p, -, hp, -⟩ := exists_rank_near hq hy
    rw [value_ofRatio, hrank]
    exact (hnear.near p).trans hp
  · obtain ⟨p, -, hp, hvalue⟩ := exists_rank_near hq hy
    rw [value_ofRatio, hrank] at hne heq
    have hdist : |magnitude p - (n : ℚ) / d| = |magnitude r - n / d| := le_antisymm (hp.trans heq.le) (hnear.near p)
    have hpr : p ≠ r := fun h => hne ((hvalue (hdist.trans heq.symm)).trans (congrArg magnitude h))
    show Even (mant (rankOf n d))
    rw [even_mant_iff, hrank]
    exact hnear.tie p hpr hdist

/-- That infinity bounds the doubles makes no difference below it. -/
theorem nearestRank_of_nearest (hd : 0 < d) (hfinite : rankOf n d < infRank) {s : Bool} {r : ℕ} {h : r ≤ infRank}
    (hx : (num s r h).Nearest (n / d)) : NearestRank (n / d) r := by
  obtain ⟨q, hq, hnear⟩ := rankOf_nearest n hd
  have hrank : rankOf n d = q := by omega
  have hvalue : (num s r h).value = magnitude r := by
    cases s with
    | false => rfl
    | true =>
      obtain rfl := hx.sign (by positivity) rfl
      show -magnitude 0 = magnitude 0
      rw [magnitude_zero, neg_zero]
  have hclose := hx.near (ofRatio false n d) (isFinite_num.mpr hfinite)
  have htie := hx.tie (ofRatio false n d) (isFinite_num.mpr hfinite)
  rw [value_ofRatio, hvalue, hrank] at hclose htie
  by_cases hqr : q = r
  · rw [← hqr]
    exact hnear
  · have heven : Even r :=
      even_mant_iff.mp (htie (magnitude_strictMono.injective.ne hqr) (le_antisymm (hnear.near r) hclose))
    exact ⟨fun p => hclose.trans (hnear.near p), fun _ _ _ => heven⟩

/-- The double nearest to a quotient is the one it is rounded to, and no other but -0. -/
theorem nearest_iff (hd : 0 < d) (hfinite : rankOf n d < infRank) :
    x.Nearest (n / d) ∧ x ≠ zero true ↔ x = ofRatio false n d := by
  constructor
  · intro h
    obtain ⟨hx, hzero⟩ := h
    cases x with
    | nan => cases hx.finite
    | num s r hr =>
      have hsign := hx.sign (by positivity)
      obtain rfl : s = false := by
        cases s with
        | false => rfl
        | true => exact absurd (by simp [zero, hsign rfl]) hzero
      obtain ⟨q, hq, hnear⟩ := rankOf_nearest n hd
      have hrank : r = rankOf n d := by
        have hunique := (nearestRank_of_nearest hd hfinite hx).unique hnear
        omega
      simp only [ofRatio, hrank]
  · intro h
    rw [h]
    refine ⟨ofRatio_nearest hd hfinite, ?_⟩
    unfold ofRatio zero
    intro h
    injection h with hs
    cases hs

end NodeGauge.Double
