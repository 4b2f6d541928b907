/-
  NodeGauge.Proofs.Wei.Totals — a total that is added up in ether, part by part, against
  the sum that is rounded once. Each part is rounded on its own and so is each addition, so
  a total of `k` parts above zero is the exact sum but for `k` roundings (`Close.near`). A
  single such part is the total (`Close.single`), and so is the sum rounded once as long as
  what is added is exact (`Close.exact`).

  `total_close`: this holds of any parts that are not below zero and whose sum is an amount.
-/

import Mathlib.Algebra.Order.BigOperators.Group.List
import NodeGauge.Proofs.Double.Operations
import NodeGauge.Proofs.Wei.Nearest

namespace NodeGauge.Wei

open Double (rankOf magnitude rounded num)

/-! ## Some roundings away -/

/-- The number is `x` but for `k` relative errors of one part in `2 ^ 53`. -/
structure Within (k : ℕ) (y x : ℚ) : Prop where
  lower : (1 - 1 / 2 ^ 53) ^ k * x ≤ y
  upper : y ≤ (1 + 1 / 2 ^ 53) ^ k * x

namespace Within

variable {k : ℕ} {x y x' y' : ℚ}

theorem zero : Within 0 x x := ⟨by simp, by simp⟩

theorem add (h : Within k y x) (h' : Within k y' x') : Within k (y + y') (x + x') where
  lower := by
    rw [mul_add]
    exact add_le_add h.lower h'.lower
  upper := by
    rw [mul_add]
    exact add_le_add h.upper h'.upper

theorem mono {l : ℕ} (h : Within k y x) (hx : 0 ≤ x) (hkl : k ≤ l) : Within l y x where
  lower := by
    refine le_trans (mul_le_mul_of_nonneg_right ?_ hx) h.lower
    exact pow_le_pow_of_le_one (by norm_num) (by norm_num) hkl
  upper := by
    refine h.upper.trans (mul_le_mul_of_nonneg_right ?_ hx)
    exact pow_le_pow_right₀ (by norm_num) hkl

/-- One rounding more. -/
theorem round {z : ℚ} (h : Within k y x) (hz : |z - y| ≤ y / 2 ^ 53) : Within (k + 1) z x := by
  obtain ⟨hlow, hhigh⟩ := abs_le.mp hz
  constructor
  · calc (1 - 1 / 2 ^ 53) ^ (k + 1) * x = (1 - 1 / 2 ^ 53) * ((1 - 1 / 2 ^ 53) ^ k * x) := by ring
      _ ≤ (1 - 1 / 2 ^ 53) * y := mul_le_mul_of_nonneg_left h.lower (by norm_num)
      _ ≤ z := by linarith
  · calc z ≤ (1 + 1 / 2 ^ 53) * y := by linarith
      _ ≤ (1 + 1 / 2 ^ 53) * ((1 + 1 / 2 ^ 53) ^ k * x) := mul_le_mul_of_nonneg_left h.upper (by norm_num)
      _ = (1 + 1 / 2 ^ 53) ^ (k + 1) * x := by ring

end Within

/-! ## One amount -/

/-- The rank of an amount in ether. -/
def etherRank (v : Wei) : ℕ := rankOf v.toNat weiPerEther

theorem etherRank_le (v : Wei) : etherRank v ≤ infRank := Double.rankOf_le ..

variable {v : Wei}

theorem etherRank_lt (h : IsAmount v) : etherRank v < infRank := rank_lt_infRank h

theorem etherRank_eq (h : 0 ≤ v) : etherRank v = rounded (v / 10 ^ 18) := by
  rw [etherRank, Double.rankOf_eq_rounded weiPerEther_pos, quotient_eq h]

theorem two_zpow_le_quotient (h : 0 < v) : (2 : ℚ) ^ (-1022 : ℤ) ≤ v / 10 ^ 18 := by
  have hv : (1 : ℚ) ≤ v := by exact_mod_cast h
  calc (2 : ℚ) ^ (-1022 : ℤ) ≤ 2 ^ (-60 : ℤ) := zpow_le_zpow_right₀ (by norm_num) (by norm_num)
    _ ≤ 1 / 10 ^ 18 := by norm_num
    _ ≤ v / 10 ^ 18 := by gcongr

theorem within_etherRank (h : IsAmount v) (hv : 0 < v) : Within 1 (magnitude (etherRank v)) (v / 10 ^ 18) := by
  have hrank := etherRank_eq h.1
  rw [hrank]
  exact Within.zero.round (Double.rounded_error (two_zpow_le_quotient hv) (hrank ▸ etherRank_lt h))

theorem magnitude_etherRank_le (h : IsAmount v) : magnitude (etherRank v) ≤ 2 * (v / 10 ^ 18) := by
  rcases lt_or_eq_of_le h.1 with hv | rfl
  · have hupper := (within_etherRank h hv).upper
    have hnonneg : (0 : ℚ) ≤ v / 10 ^ 18 := le_trans (by positivity) (two_zpow_le_quotient hv)
    linarith
  · have hzero : etherRank 0 = 0 := rfl
    simp [hzero]

/-! ## Adding one amount -/

theorem IsAmount.quotient_lt (h : IsAmount v) : (v : ℚ) / 10 ^ 18 < 2 ^ 197 := by
  have hv : (v : ℚ) < 2 ^ 256 := by exact_mod_cast h.2
  rw [div_lt_iff₀ (by norm_num)]
  exact hv.trans (by norm_num)

theorem two_zpow_le_etherRank (hv : 0 < v) : (2 : ℚ) ^ (-1022 : ℤ) ≤ magnitude (etherRank v) := by
  have hle := Double.magnitude_strictMono.monotone (le_rank hv)
  rw [Double.magnitude_power] at hle
  exact (zpow_le_zpow_right₀ (by norm_num) (by norm_num)).trans hle

/-- The sum is rounded once more, and it goes up by twice what is added at the most. -/
theorem add_etherRank {r : ℕ} (hr : magnitude r ≤ 2 ^ 199) (h : IsAmount v) (hv : 0 < v) :
    rounded (magnitude r + magnitude (etherRank v)) < infRank ∧
      |magnitude (rounded (magnitude r + magnitude (etherRank v))) - (magnitude r + magnitude (etherRank v))| ≤
        (magnitude r + magnitude (etherRank v)) / 2 ^ 53 ∧
      magnitude (rounded (magnitude r + magnitude (etherRank v))) ≤ magnitude r + 2 * magnitude (etherRank v) := by
  have hnonneg := Double.magnitude_nonneg r
  have hleast := two_zpow_le_etherRank hv
  have hpart : magnitude (etherRank v) ≤ 2 * 2 ^ 197 := by
    have hquot := h.quotient_lt
    exact (magnitude_etherRank_le h).trans (by gcongr)
  have hpos : (0 : ℚ) < 2 ^ (-1022 : ℤ) := by positivity
  generalize magnitude (etherRank v) = e at *
  have hfinite : rounded (magnitude r + e) < infRank := by
    refine Double.rounded_lt_infRank (by linarith) ?_
    calc magnitude r + e ≤ 2 ^ 199 + 2 * 2 ^ 197 := add_le_add hr hpart
      _ ≤ 2 ^ 200 := by norm_num
      _ < 2 ^ 970 := pow_lt_pow_right₀ (by norm_num) (by norm_num)
      _ ≤ (2 ^ 54 - 1) * 2 ^ 970 := le_mul_of_one_le_left (by positivity) (by norm_num)
  refine ⟨hfinite, Double.rounded_error (by linarith) hfinite, ?_⟩
  -- The number before the addition was `e` away, and the nearest is no farther.
  obtain ⟨q, hq, hnear⟩ := Double.rounded_nearest (x := magnitude r + e) (by linarith)
  have hclose : |magnitude q - (magnitude r + e)| ≤ e := by
    have h := hnear.near r
    rwa [sub_add_cancel_left, abs_neg, abs_of_nonneg (a := e) (by linarith)] at h
  have hle := (abs_le.mp hclose).2
  rw [show rounded (magnitude r + e) = q by omega]
  linarith

/-! ## The total -/

/-- Amounts in ether added up from the left. -/
def total (parts : List Wei) : Double := Double.sum (parts.map fun v => .ofRatio false v.toNat weiPerEther)

/-- A finite double stands for the number. -/
def Representable (q : ℚ) : Prop := ∃ x : Double, x.isFinite = true ∧ x.value = q

/-- How a total that was added up of parts stands to their sum, and to the sum in ether. -/
structure Close (parts : List Wei) (once x : Double) : Prop where
  sum : toEther parts.sum = .ok once
  finite : x.isFinite = true
  near : Within (parts.countP (0 < ·)) x.value (parts.sum / 10 ^ 18)
  single : parts.countP (0 < ·) ≤ 1 → x = once
  exact : (∀ v ∈ parts, Representable (v / 10 ^ 18)) →
    (∀ k < parts.length, Representable ((parts.take k).sum / 10 ^ 18)) → x = once

variable {parts : List Wei}

theorem total_snoc (parts : List Wei) (v : Wei) :
    total (parts ++ [v]) = total parts + num false (etherRank v) (etherRank_le v) := by
  simp [total, Double.sum, Double.ofRatio, etherRank]

/-- What is known of a total of parts, as the rank it has. -/
structure Rank (parts : List Wei) (r : ℕ) : Prop where
  finite : r < infRank
  eq : total parts = num false r finite.le
  bound : magnitude r ≤ 4 * (parts.sum / 10 ^ 18)
  near : Within (parts.countP (0 < ·)) (magnitude r) (parts.sum / 10 ^ 18)
  single : parts.countP (0 < ·) ≤ 1 → r = etherRank parts.sum

theorem Rank.nil : Rank [] 0 where
  finite := by decide
  eq := rfl
  bound := by simp
  near := by simpa using Within.zero
  single := fun _ => rfl

variable {r : ℕ}

/-- Zero is added without a rounding. -/
theorem Rank.snoc_zero (h : Rank parts r) : Rank (parts ++ [0]) r := by
  have hcount : (parts ++ [0]).countP (0 < ·) = parts.countP (0 < ·) := by simp
  have hsum : (parts ++ [0]).sum = parts.sum := by simp
  refine ⟨h.finite, ?_, ?_, ?_, ?_⟩
  · have hzero : magnitude r + magnitude (etherRank 0) = magnitude r := by
      rw [show etherRank 0 = 0 from rfl, Double.magnitude_zero, add_zero]
    rw [total_snoc, h.eq, Double.num_add h.finite (by decide)]
    simp only [hzero, Double.rounded_of_eq (Double.magnitude_nonneg r) h.finite.le rfl]
  · rw [hsum]
    exact h.bound
  · rw [hcount, hsum]
    exact h.near
  · rw [hcount, hsum]
    exact h.single

theorem Rank.magnitude_le (h : Rank parts r) (hsum : IsAmount parts.sum) : magnitude r ≤ 2 ^ 199 := by
  have hquot := hsum.quotient_lt
  calc magnitude r ≤ 4 * (parts.sum / 10 ^ 18) := h.bound
    _ ≤ 4 * 2 ^ 197 := by gcongr
    _ = 2 ^ 199 := by norm_num

/-- Before the first part above zero there is nothing. -/
theorem Rank.of_none (h : Rank parts r) (hparts : ∀ v ∈ parts, 0 ≤ v) (hnone : parts.countP (0 < ·) = 0) :
    parts.sum = 0 ∧ r = 0 := by
  have hzero : ∀ v ∈ parts, v = 0 := fun v hv =>
    le_antisymm (by simpa using List.countP_eq_zero.mp hnone v hv) (hparts v hv)
  have hsum : parts.sum = 0 := List.sum_eq_zero hzero
  refine ⟨hsum, ?_⟩
  rw [h.single (by omega), hsum]
  rfl

/-- A part above zero is rounded, and then the sum is, but for the first such part: what it
    is added to is zero. -/
theorem Rank.snoc_pos (h : Rank parts r) (hparts : ∀ v ∈ parts, 0 ≤ v) (hv : 0 < v) (hsum : parts.sum + v < 2 ^ 256) :
    Rank (parts ++ [v]) (rounded (magnitude r + magnitude (etherRank v))) := by
  have hnonneg : 0 ≤ parts.sum := List.sum_nonneg hparts
  have hamount : IsAmount v := ⟨hv.le, by linarith⟩
  have hr : magnitude r ≤ 2 ^ 199 := h.magnitude_le ⟨hnonneg, by linarith⟩
  have hcount : (parts ++ [v]).countP (0 < ·) = parts.countP (0 < ·) + 1 := by simp [hv]
  have hquot : (((parts ++ [v]).sum : Wei) : ℚ) / 10 ^ 18 = parts.sum / 10 ^ 18 + v / 10 ^ 18 := by
    rw [List.sum_append, List.sum_singleton, Int.cast_add, add_div]
  obtain ⟨hfinite, herror, hup⟩ := add_etherRank hr hamount hv
  have hpart := magnitude_etherRank_le hamount
  have hone := within_etherRank hamount hv
  have hnew : (0 : ℚ) ≤ v / 10 ^ 18 := le_trans (by positivity) (two_zpow_le_quotient hv)
  have hfirst : parts.countP (0 < ·) = 0 → rounded (magnitude r + magnitude (etherRank v)) = etherRank v := by
    intro hnone
    rw [(h.of_none hparts hnone).2, Double.magnitude_zero, zero_add]
    exact Double.rounded_of_eq (Double.magnitude_nonneg _) (etherRank_le v) rfl
  refine ⟨hfinite, ?_, ?_, ?_, ?_⟩
  · rw [total_snoc, h.eq]
    exact Double.num_add h.finite (etherRank_lt hamount)
  · rw [hquot]
    linarith [h.bound]
  · rw [hcount, hquot]
    rcases Nat.eq_zero_or_pos (parts.countP (0 < ·)) with hnone | hsome
    · rw [hfirst hnone, hnone, (h.of_none hparts hnone).1]
      simpa using hone
    · exact (h.near.add (hone.mono hnew hsome)).round herror
  · intro hle
    have hnone : parts.countP (0 < ·) = 0 := by omega
    rw [hfirst hnone, List.sum_append, List.sum_singleton, (h.of_none hparts hnone).1, zero_add]

/-- The induction is on the parts from the left, so on the list from its end. -/
theorem exists_rank (hparts : ∀ v ∈ parts, 0 ≤ v) (hsum : parts.sum < 2 ^ 256) : ∃ r, Rank parts r := by
  induction parts using List.reverseRecOn with
  | nil => exact ⟨0, .nil⟩
  | append_singleton parts v ih =>
    rw [List.forall_mem_append] at hparts
    obtain ⟨hparts, hv⟩ := hparts
    have hv : 0 ≤ v := hv v (List.mem_singleton_self v)
    rw [List.sum_append, List.sum_singleton] at hsum
    obtain ⟨r, hr⟩ := ih hparts (by linarith)
    rcases lt_or_eq_of_le hv with hpos | rfl
    · exact ⟨_, hr.snoc_pos hparts hpos hsum⟩
    · exact ⟨r, hr.snoc_zero⟩

/-! ## Sums that are exact -/

theorem Representable.magnitude_rounded {q : ℚ} (h : Representable q) (hq : 0 ≤ q) : magnitude (rounded q) = q := by
  obtain ⟨x, hx, rfl⟩ := h
  cases x with
  | nan => cases hx
  | num s r hr =>
    cases s with
    | false => exact congrArg magnitude (Double.rounded_of_eq hq hr rfl)
    | true =>
      have hvalue : (num true r hr).value = -magnitude r := rfl
      have hzero : magnitude r = 0 := by
        have hnonneg := Double.magnitude_nonneg r
        linarith
      rw [hvalue, hzero, neg_zero, Double.rounded_of_eq le_rfl (Nat.zero_le _) Double.magnitude_zero.symm,
        Double.magnitude_zero]

/-- Parts that are doubles, with sums on the way that are doubles: only the last sum is rounded. -/
theorem Rank.exact (h : Rank parts r) (hparts : ∀ v ∈ parts, 0 ≤ v) (hsum : parts.sum < 2 ^ 256)
    (heach : ∀ v ∈ parts, Representable (v / 10 ^ 18))
    (hstart : ∀ k < parts.length, Representable ((parts.take k).sum / 10 ^ 18)) : r = etherRank parts.sum := by
  induction parts using List.reverseRecOn generalizing r with
  | nil => exact h.single (Nat.zero_le _)
  | append_singleton parts v ih =>
    rw [List.forall_mem_append] at hparts heach
    obtain ⟨hparts, hv⟩ := hparts
    obtain ⟨heach, hlast⟩ := heach
    have hv : 0 ≤ v := hv v (List.mem_singleton_self v)
    have hnonneg : 0 ≤ parts.sum := List.sum_nonneg hparts
    rw [List.sum_append, List.sum_singleton] at hsum ⊢
    rw [List.length_append, List.length_singleton] at hstart
    obtain ⟨q, hq⟩ := exists_rank hparts (by linarith)
    have hold : q = etherRank parts.sum := by
      refine ih hq hparts (by linarith) heach fun k hk => ?_
      have h := hstart k (by omega)
      rwa [List.take_append_of_le_length hk.le] at h
    have hmiddle : Representable (parts.sum / 10 ^ 18) := by
      have h := hstart parts.length (by omega)
      rwa [List.take_left] at h
    have hadded := h.eq
    rw [total_snoc, hq.eq, Double.num_add hq.finite (etherRank_lt ⟨hv, by linarith⟩)] at hadded
    injection hadded with _ hr
    have hcast : (0 : ℚ) ≤ parts.sum := by exact_mod_cast hnonneg
    have hcast' : (0 : ℚ) ≤ v := by exact_mod_cast hv
    rw [← hr, hold, etherRank_eq hnonneg, etherRank_eq hv, hmiddle.magnitude_rounded (by positivity),
      (hlast v (List.mem_singleton_self v)).magnitude_rounded (by positivity), etherRank_eq (by linarith), Int.cast_add,
      add_div]

/-- Parts that are not below zero and come to an amount. -/
theorem total_close (hparts : ∀ v ∈ parts, 0 ≤ v) (hsum : parts.sum < 2 ^ 256) {once : Double}
    (honce : toEther parts.sum = .ok once) : Close parts once (total parts) := by
  obtain ⟨r, hr⟩ := exists_rank hparts hsum
  obtain ⟨-, rfl⟩ := toEther_ok_iff.mp honce
  have hether : r = etherRank parts.sum → total parts = .ofRatio false parts.sum.toNat weiPerEther := by
    rintro rfl
    exact hr.eq
  refine ⟨honce, ?_, ?_, fun h => hether (hr.single h), fun heach hstart => hether (hr.exact hparts hsum heach hstart)⟩
  · rw [hr.eq]
    exact Double.isFinite_num.mpr hr.finite
  · rw [hr.eq]
    exact hr.near

/-- A first part is added to zero without a rounding. -/
theorem zero_add_toEther {x : Double} (h : toEther v = .ok x) : 0 + x = x := by
  obtain ⟨hv, rfl⟩ := toEther_ok_iff.mp h
  have hparts : ∀ w ∈ [v], 0 ≤ w := List.forall_mem_singleton.mpr hv.1
  have hclose : Close [v] (.ofRatio false v.toNat weiPerEther) (total [v]) :=
    total_close hparts (by rw [List.sum_singleton]; exact hv.2) (by rw [List.sum_singleton]; exact h)
  exact hclose.single List.countP_le_length

/-- Parts of an amount that are not below zero are amounts. -/
theorem isAmount_of_mem (hparts : ∀ v ∈ parts, 0 ≤ v) (hsum : parts.sum < 2 ^ 256) (h : v ∈ parts) : IsAmount v :=
  ⟨hparts v h, (List.single_le_sum hparts v h).trans_lt hsum⟩

theorem mapM_toEther (h : ∀ v ∈ parts, IsAmount v) :
    parts.mapM toEther = .ok (parts.map fun v => .ofRatio false v.toNat weiPerEther) := by
  induction parts with
  | nil => rfl
  | cons v parts ih =>
    rw [List.forall_mem_cons] at h
    rw [List.mapM_cons, toEther_ok_iff.mpr ⟨h.1, rfl⟩, ih h.2]
    rfl

end NodeGauge.Wei
