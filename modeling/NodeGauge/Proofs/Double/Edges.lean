/-
  NodeGauge.Proofs.Double.Edges — where a product, a quotient or a difference of doubles
  leaves the numbers that are not below zero. Of two such factors the product is one
  again, unless one is zero and the other infinite (`isNaN_mul`, `mul_nonneg`). A quotient
  by a positive number is one, unless both are infinite (`div_nonneg`). A finite number
  less one stays finite (`isFinite_sub_one`).
-/

import NodeGauge.Proofs.Double.Operations

namespace NodeGauge.Double

variable {x y : Double}

/-! ## Ranks -/

theorem rounded_zero : rounded 0 = 0 := rounded_of_eq (le_refl _) (Nat.zero_le _) magnitude_zero.symm

theorem magnitude_mul_nonneg (r q : ℕ) : 0 ≤ magnitude r * magnitude q :=
  mul_nonneg (magnitude_nonneg r) (magnitude_nonneg q)

theorem magnitude_div_nonneg (r q : ℕ) : 0 ≤ magnitude r / magnitude q :=
  div_nonneg (magnitude_nonneg r) (magnitude_nonneg q)

theorem magnitude_one : magnitude (1023 * 2 ^ 52) = 1 := by
  have hpower := magnitude_power 1022
  norm_num at hpower ⊢
  exact hpower

theorem magnitude_least : magnitude 1 = 2 ^ (-1074 : ℤ) := by
  have hgrid := magnitude_grid (e := 0) (m := 1) (Or.inl rfl) (by decide)
  simpa using hgrid

theorem magnitude_le {r : ℕ} (h : r ≤ infRank) : magnitude r ≤ 2 ^ (1024 : ℤ) := by
  rw [show (1024 : ℤ) = ((2046 : ℕ) : ℤ) - 1022 by norm_num, ← magnitude_power]
  exact magnitude_strictMono.monotone h

theorem magnitude_le_largest {r : ℕ} (h : r < infRank) : magnitude r ≤ (2 ^ 54 - 2) * 2 ^ 970 := by
  rw [← magnitude_largest]
  exact magnitude_strictMono.monotone (by omega)

/-- The rank of a number is at least every rank up to it. -/
theorem le_rounded {r : ℕ} {q : ℚ} (hr : r ≤ infRank) (h : magnitude r ≤ q) : r ≤ rounded q :=
  le_rankOf hr q.den_pos (by rwa [quotient_eq ((magnitude_nonneg r).trans h)])

/-! ## Signs -/

theorem lt_iff : x < y ↔ lt x y = true := Iff.rfl

theorem pos_iff : 0 < x ↔ ∃ r h, x = num false r h ∧ r ≠ 0 := by
  cases x with
  | nan => simp [lt_iff, lt, zero_eq]
  | num s r h =>
    rw [lt_iff, zero_eq, lt, decide_eq_true_iff]
    cases s with
    | false =>
      simp only [place, signed, num.injEq, true_and]
      constructor
      · intro hpos
        exact ⟨r, h, rfl, by simp at hpos; omega⟩
      · rintro ⟨q, -, rfl, hq⟩
        simpa [Nat.pos_iff_ne_zero] using hq
    | true => simp [place, signed]

theorem pos_of_not_le (hx : x.isNaN = false) (h : ¬ x ≤ 0) : 0 < x := by
  cases x with
  | nan => cases hx
  | num s r hr =>
    rw [zero_eq, num_le_num] at h
    rw [zero_eq, lt_iff, lt, decide_eq_true_iff]
    omega

theorem not_le_zero_of_pos (h : 0 < x) : ¬ x ≤ 0 := by
  obtain ⟨r, hr, rfl, hr0⟩ := pos_iff.mp h
  rw [zero_eq, num_le_num]
  simp only [place, signed]
  simp
  omega

theorem not_lt_zero_of_nonneg (h : 0 ≤ x) : ¬ x < 0 := by
  obtain ⟨s, r, hr, rfl, hs⟩ := nonneg_iff.mp h
  rw [lt_iff, zero_eq, lt, decide_eq_true_iff]
  cases s with
  | false => simp [place, signed]
  | true => simp [place, signed, hs rfl]

theorem not_lt_of_isNaN (h : x.isNaN = true) : ¬ x < y := by
  cases x with
  | nan => simp [lt_iff, lt]
  | num s r hr => cases h

theorem one_eq : (1 : Double) = num false (1023 * 2 ^ 52) (by decide) := by decide +kernel

theorem one_le_iff {s : Bool} {r : ℕ} {h : r ≤ infRank} : 1 ≤ num s r h ↔ s = false ∧ 1 ≤ magnitude r := by
  rw [one_eq, num_le_num, ← magnitude_one, magnitude_strictMono.le_iff_le]
  cases s with
  | false => simp [place, signed]
  | true =>
    simp only [place, signed, Bool.true_eq_false, false_and, iff_false]
    simp
    omega

/-! ## Finite numbers -/

theorem isFinite_iff : x.isFinite = true ↔ x.isNaN = false ∧ x.isInf = false := by
  cases x with
  | nan => simp [isFinite, isNaN]
  | num s r h =>
    have hlt : r < infRank ↔ r ≠ infRank := by omega
    simp [isFinite, isNaN, isInf, hlt]

theorem isFinite_ofDyadic {s : Bool} {m : ℕ} {e : ℤ} (h : (m : ℚ) * 2 ^ e < (2 ^ 54 - 1) * 2 ^ 970) :
    (ofDyadic s m e).isFinite = true := by
  rw [ofDyadic_eq rfl, isFinite_num]
  exact rounded_lt_infRank (by positivity) h

theorem isFinite_addDyadic {s t : Bool} {r q : ℕ} (h : magnitude r + magnitude q < (2 ^ 54 - 1) * 2 ^ 970) :
    (addDyadic s (mant r) (expo r) t (mant q) (expo q)).isFinite = true := by
  have hmr := shiftLeft_mul_zpow (m := mant r) (min_le_left (expo r) (expo q))
  have hmq := shiftLeft_mul_zpow (m := mant q) (min_le_right (expo r) (expo q))
  -- at the lesser of the exponents the sum is one of integers
  unfold addDyadic
  dsimp only
  generalize mant r <<< (expo r - min (expo r) (expo q)).toNat = a at *
  generalize mant q <<< (expo q - min (expo r) (expo q)).toNat = b at *
  by_cases hn : signed s a + signed t b = 0
  · rw [if_pos hn]
    rfl
  · rw [if_neg hn]
    refine isFinite_ofDyadic (lt_of_le_of_lt ?_ h)
    have habs : (signed s a + signed t b).natAbs ≤ a + b := by
      unfold signed
      cases s <;> cases t <;> simp <;> omega
    calc ((signed s a + signed t b).natAbs : ℚ) * 2 ^ min (expo r) (expo q)
        ≤ ((a + b : ℕ) : ℚ) * 2 ^ min (expo r) (expo q) := by gcongr
      _ = magnitude r + magnitude q := by
        rw [Nat.cast_add, add_mul, hmr, hmq]
        rfl

theorem isFinite_sub_one (h : x.isFinite = true) : (x - 1).isFinite = true := by
  cases x with
  | nan => cases h
  | num s r hr =>
    rw [isFinite_num] at h
    show (num s r hr + neg 1).isFinite = true
    rw [one_eq, neg, num_add_num, if_neg h.ne, if_neg (by decide)]
    refine isFinite_addDyadic ?_
    have hle := magnitude_le_largest h
    have hunit : (1 : ℚ) < 2 ^ 970 := one_lt_pow₀ (by norm_num) (by norm_num)
    rw [magnitude_one]
    generalize (2 : ℚ) ^ 970 = u at *
    linarith

/-- Integers of 64 bits. -/
theorem isFinite_ofInt {n : ℤ} (h : n.natAbs < 2 ^ 64) : (ofInt n).isFinite = true := by
  have hn : (n.natAbs : ℚ) < 2 ^ 64 := by exact_mod_cast h
  refine isFinite_num.mpr (rankOf_lt_infRank Nat.one_pos ?_)
  rw [Nat.cast_one, div_one]
  calc (n.natAbs : ℚ) < 2 ^ 64 := hn
    _ ≤ 2 ^ 970 := pow_le_pow_right₀ (by norm_num) (by norm_num)
    _ ≤ (2 ^ 54 - 1) * 2 ^ 970 := le_mul_of_one_le_left (by positivity) (by norm_num)

theorem one_le_ofInt {n : ℤ} (h : 0 < n) : 1 ≤ ofInt n := by
  have hn : (1 : ℚ) ≤ n.natAbs := by exact_mod_cast Int.natAbs_pos.mpr h.ne'
  have hrank : 1023 * 2 ^ 52 ≤ rankOf n.natAbs 1 :=
    le_rankOf (by decide) Nat.one_pos (by rwa [magnitude_one, Nat.cast_one, div_one])
  refine one_le_iff.mpr ⟨decide_eq_false h.le.not_gt, ?_⟩
  rw [← magnitude_one]
  exact magnitude_strictMono.monotone hrank

/-! ## Products -/

theorem num_mul_num (s t : Bool) {r q : ℕ} (h : r ≤ infRank) (k : q ≤ infRank) :
    num s r h * num t q k =
      if r = infRank ∨ q = infRank then if r = 0 ∨ q = 0 then .nan else inf (s != t)
      else ofDyadic (s != t) (mant r * mant q) (expo r + expo q) := rfl

theorem isNaN_mul (hx : x.isNaN = false) (hy : y.isNaN = false) :
    (x * y).isNaN = true ↔ x.isInf = true ∧ y.isZero = true ∨ x.isZero = true ∧ y.isInf = true := by
  cases x with
  | nan => cases hx
  | num s r h =>
    cases y with
    | nan => cases hy
    | num t q k =>
      have hinf : infRank ≠ 0 := by decide
      simp only [num_mul_num, isInf, isZero, beq_iff_eq]
      by_cases hr : r = infRank ∨ q = infRank
      · rw [if_pos hr]
        by_cases hq : r = 0 ∨ q = 0
        · rw [if_pos hq]
          simp only [isNaN, true_iff]
          omega
        · rw [if_neg hq]
          simp only [inf, isNaN, Bool.false_eq_true, false_iff]
          omega
      · rw [if_neg hr]
        simp only [ofDyadic, ofRatio, isNaN, Bool.false_eq_true, false_iff]
        omega

theorem isNaN_mul_left (h : x.isNaN = true) (y : Double) : (x * y).isNaN = true := by
  cases x with
  | nan => rfl
  | num s r hr => cases h

/-- A product of finite numbers is no NaN, though it can be infinite. -/
theorem isNaN_mul_of_isFinite (hx : x.isFinite = true) (hy : y.isFinite = true) : (x * y).isNaN = false := by
  cases x with
  | nan => cases hx
  | num s r h =>
    cases y with
    | nan => cases hy
    | num t q k =>
      rw [num_mul (isFinite_num.mp hx) (isFinite_num.mp hy)]
      rfl

theorem mul_nonneg (hx : 0 ≤ x) (hy : 0 ≤ y) (h : (x * y).isNaN = false) : 0 ≤ x * y := by
  obtain ⟨s, r, hr, rfl, hs⟩ := nonneg_iff.mp hx
  obtain ⟨t, q, hq, rfl, ht⟩ := nonneg_iff.mp hy
  by_cases hfinite : r < infRank ∧ q < infRank
  · rw [num_mul hfinite.1 hfinite.2]
    refine nonneg_iff.mpr ⟨_, _, _, rfl, fun hsign => ?_⟩
    -- the sign is set only where a factor is a zero with one
    have hzero : magnitude r * magnitude q = 0 := by
      rw [mul_eq_zero, magnitude_eq_zero_iff, magnitude_eq_zero_iff]
      cases s with
      | true => exact Or.inl (hs rfl)
      | false =>
        cases t with
        | true => exact Or.inr (ht rfl)
        | false => cases hsign
    rw [hzero, rounded_zero]
  · have hboth : r = infRank ∨ q = infRank := by omega
    rw [num_mul_num, if_pos hboth] at h ⊢
    by_cases hz : r = 0 ∨ q = 0
    · rw [if_pos hz] at h
      cases h
    · rw [if_neg hz]
      cases s with
      | true => exact absurd (Or.inl (hs rfl)) hz
      | false =>
        cases t with
        | true => exact absurd (Or.inr (ht rfl)) hz
        | false => exact nonneg_iff.mpr ⟨false, infRank, le_refl _, rfl, nofun⟩

theorem mul_cases (hx : 0 ≤ x) (hy : 0 ≤ y) :
    0 ≤ x * y ∧ ¬ (x.isInf = true ∧ y.isZero = true ∨ x.isZero = true ∧ y.isInf = true) ∨
      (x * y).isNaN = true ∧ (x.isInf = true ∧ y.isZero = true ∨ x.isZero = true ∧ y.isInf = true) := by
  rw [← isNaN_mul (not_isNaN_of_nonneg hx) (not_isNaN_of_nonneg hy)]
  cases h : (x * y).isNaN with
  | false => exact Or.inl ⟨mul_nonneg hx hy h, Bool.false_ne_true⟩
  | true => exact Or.inr ⟨rfl, rfl⟩

/-- A factor that is neither zero nor infinite. -/
theorem mul_nonneg_of_pos (hx : 0 ≤ x) (hy : 0 < y) (hfinite : y.isFinite = true) : 0 ≤ x * y := by
  obtain ⟨q, hq, rfl, hq0⟩ := pos_iff.mp hy
  have hlt := isFinite_num.mp hfinite
  refine mul_nonneg hx (nonneg_iff.mpr ⟨false, q, hq, rfl, nofun⟩) ?_
  rw [← Bool.not_eq_true, isNaN_mul (not_isNaN_of_nonneg hx) rfl]
  simp only [isInf, isZero, beq_iff_eq]
  omega

/-- Multiplying by one or more leads to no zero. -/
theorem mul_pos_of_one_le (hx : 0 < x) (hy : y.isFinite = true) (h : 1 ≤ y) : 0 < x * y := by
  obtain ⟨r, hr, rfl, hr0⟩ := pos_iff.mp hx
  cases y with
  | nan => cases hy
  | num t q hq =>
    obtain ⟨rfl, hone⟩ := one_le_iff.mp h
    rw [isFinite_num] at hy
    by_cases hinf : r = infRank
    · have hq0 : q ≠ 0 := by
        rintro rfl
        rw [magnitude_zero] at hone
        linarith
      rw [num_mul_num, if_pos (Or.inl hinf), if_neg (by omega)]
      exact pos_iff.mpr ⟨infRank, le_refl _, rfl, by decide⟩
    · rw [num_mul (by omega) hy]
      have hle : r ≤ rounded (magnitude r * magnitude q) :=
        le_rounded hr (le_mul_of_one_le_right (magnitude_nonneg r) hone)
      exact pos_iff.mpr ⟨_, rounded_le _, rfl, by omega⟩

/-! ## Quotients -/

theorem num_div_num (s t : Bool) {r q : ℕ} (h : r ≤ infRank) (k : q ≤ infRank) :
    num s r h / num t q k =
      if r = infRank then if q = infRank then .nan else inf (s != t)
      else if q = infRank then zero (s != t)
      else if q = 0 then if r = 0 then .nan else inf (s != t)
      else ofRatio (s != t) (mant r <<< (expo r - expo q).toNat) (mant q <<< (-(expo r - expo q)).toNat) := rfl

theorem isNaN_div_left (h : x.isNaN = true) (y : Double) : (x / y).isNaN = true := by
  cases x with
  | nan => rfl
  | num s r hr => cases h

theorem div_nonneg (hx : 0 ≤ x) (hy : 0 < y) (h : x.isFinite = true ∨ y.isFinite = true) : 0 ≤ x / y := by
  obtain ⟨s, r, hr, rfl, hs⟩ := nonneg_iff.mp hx
  obtain ⟨q, hq, rfl, hq0⟩ := pos_iff.mp hy
  rw [isFinite_num, isFinite_num] at h
  by_cases hrinf : r = infRank
  · have hsign : s = false := by
      cases s with
      | false => rfl
      | true => exact absurd (hs rfl) (hrinf ▸ by decide)
    rw [num_div_num, if_pos hrinf, if_neg (by omega), hsign]
    exact nonneg_iff.mpr ⟨false, infRank, le_refl _, rfl, nofun⟩
  · by_cases hqinf : q = infRank
    · rw [num_div_num, if_neg hrinf, if_pos hqinf]
      exact nonneg_iff.mpr ⟨_, 0, Nat.zero_le _, rfl, fun _ => rfl⟩
    · rw [num_div (by omega) (by omega) hq0]
      refine nonneg_iff.mpr ⟨_, _, _, rfl, fun hsign => ?_⟩
      have hs' : s = true := by simpa using hsign
      rw [hs hs', magnitude_zero, zero_div, rounded_zero]

/-- One or more is not divided down to zero. -/
theorem div_pos_of_one_le (hx : x.isFinite = true) (h : 1 ≤ x) (hy : 0 < y) (hfinite : y.isFinite = true) : 0 < x / y := by
  obtain ⟨q, hq, rfl, hq0⟩ := pos_iff.mp hy
  cases x with
  | nan => cases hx
  | num s r hr =>
    obtain ⟨rfl, hone⟩ := one_le_iff.mp h
    rw [isFinite_num] at hx hfinite
    have hpos : 0 < magnitude q :=
      lt_of_le_of_ne (magnitude_nonneg q) (Ne.symm (magnitude_eq_zero_iff.not.mpr hq0))
    have hle : magnitude 1 ≤ magnitude r / magnitude q := by
      rw [magnitude_least, le_div_iff₀ hpos]
      calc (2 : ℚ) ^ (-1074 : ℤ) * magnitude q ≤ 2 ^ (-1074 : ℤ) * 2 ^ (1024 : ℤ) := by
            gcongr
            exact magnitude_le hq
        _ ≤ 1 := by
          rw [← zpow_add₀ (by norm_num)]
          exact zpow_le_one_of_nonpos₀ (by norm_num) (by norm_num)
        _ ≤ magnitude r := hone
    have hrank := le_rounded (by decide) hle
    rw [num_div hx hfinite hq0]
    exact pos_iff.mpr ⟨_, rounded_le _, rfl, by omega⟩

/-- An integer of 64 bits keeps its sign when it is divided. -/
theorem ofInt_div_pos_iff {n : ℤ} (h : n.natAbs < 2 ^ 64) (hy : 0 < y) (hfinite : y.isFinite = true) :
    0 < ofInt n / y ↔ 0 < n := by
  constructor
  · intro hpos
    by_contra hn
    obtain ⟨q, hq, rfl, hq0⟩ := pos_iff.mp hy
    have hr := isFinite_num.mp (isFinite_ofInt h)
    obtain ⟨r, hr', heq, hr0⟩ := pos_iff.mp hpos
    unfold ofInt ofRatio at heq
    rw [num_div hr (isFinite_num.mp hfinite) hq0] at heq
    injection heq with hsign hrank
    have hzero : n = 0 := by
      by_contra hne
      have hneg : n < 0 := by omega
      simp [hneg] at hsign
    subst hzero
    refine hr0 (hrank.symm.trans ?_)
    rw [show rankOf (Int.natAbs 0) 1 = 0 from rfl, magnitude_zero, zero_div, rounded_zero]
  · intro hn
    exact div_pos_of_one_le (isFinite_ofInt h) (one_le_ofInt hn) hy hfinite

/-- Dividing by one or more leads to no infinity. -/
theorem isFinite_div (hx : x.isFinite = true) (hy : y.isFinite = true) (h : 1 ≤ y) : (x / y).isFinite = true := by
  cases x with
  | nan => cases hx
  | num s r hr =>
    cases y with
    | nan => cases hy
    | num t q hq =>
      rw [isFinite_num] at hx hy
      obtain ⟨-, hone⟩ := one_le_iff.mp h
      have hq0 : q ≠ 0 := by
        rintro rfl
        rw [magnitude_zero] at hone
        linarith
      rw [num_div hx hy hq0, isFinite_num]
      have hle : magnitude r / magnitude q ≤ magnitude r := div_le_self (magnitude_nonneg r) hone
      refine rounded_lt_infRank (magnitude_div_nonneg r q) ((hle.trans (magnitude_le_largest hx)).trans_lt ?_)
      gcongr
      norm_num

/-! ## Sums -/

theorem sum_nonneg {xs : List Double} (h : ∀ x ∈ xs, 0 ≤ x) : 0 ≤ sum xs := by
  have hfold : ∀ (ys : List Double) (acc : Double), 0 ≤ acc → (∀ x ∈ ys, 0 ≤ x) → 0 ≤ ys.foldl (· + ·) acc := by
    intro ys
    induction ys with
    | nil => exact fun _ hacc _ => hacc
    | cons y ys ih =>
      intro acc hacc hys
      rw [List.forall_mem_cons] at hys
      exact ih (acc + y) (add_spec hacc hys.1).1 hys.2
  exact hfold xs 0 (ofRatio_nonneg 0 1) h

end NodeGauge.Double
