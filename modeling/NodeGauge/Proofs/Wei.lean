/-
  NodeGauge.Proofs.Wei — which integers are amounts. A conversion to ether takes these and
  no others, and has one fault for all others.
-/

import Mathlib.Algebra.Order.Ring.Int
import NodeGauge.Wei

namespace NodeGauge.Wei

/-- What an unsigned word of 256 bits holds. -/
def IsAmount (v : Wei) : Prop := 0 ≤ v ∧ v < 2 ^ 256

theorem fits_iff {v : Wei} : fits v = true ↔ IsAmount v := by
  have hmax : maxWord = 2 ^ 256 - 1 := by decide
  unfold fits IsAmount
  rw [Bool.and_eq_true, decide_eq_true_iff, decide_eq_true_iff, hmax]
  exact and_congr_right fun _ => Int.le_sub_one_iff

theorem toEther_ok_iff {v : Wei} {x : Double} :
    toEther v = .ok x ↔ IsAmount v ∧ x = Double.ofRatio false v.toNat weiPerEther := by
  unfold toEther
  rw [← fits_iff]
  by_cases h : fits v = true
  · rw [if_pos h]
    simp [h, eq_comm]
  · rw [if_neg h]
    simp [h]

theorem toEther_error_iff {v : Wei} {f : Fault} : toEther v = .error f ↔ ¬ IsAmount v ∧ f = .amountOutOfRange := by
  unfold toEther
  rw [← fits_iff]
  by_cases h : fits v = true
  · rw [if_pos h]
    simp [h]
  · rw [if_neg h]
    simp [h, eq_comm]

theorem exists_toEther_iff {v : Wei} : (∃ x, toEther v = .ok x) ↔ IsAmount v := by
  simp only [toEther_ok_iff, exists_and_left, exists_eq, and_true]

end NodeGauge.Wei
