/-
  NodeGauge.Proofs.Json.Tables — objects whose members are related one by one. Under every
  key there is nothing in both or there are two related values (`Table.get?_related`), so a
  member that is read alike from related values is read alike from the objects
  (`member_related`, `memberD_related`).
-/

import Mathlib.Data.List.Forall2
import NodeGauge.Json

namespace NodeGauge

/-! ## Tables -/

namespace Table

variable {κ ν : Type} [DecidableEq κ]

theorem get?_put (t : Table κ ν) (k j : κ) (v : ν) : (t.put k v).get? j = if k = j then some v else t.get? j := by
  induction t with
  | nil => by_cases h : k = j <;> simp [put, get?, h]
  | cons m rest ih =>
    obtain ⟨i, u⟩ := m
    unfold put
    by_cases hi : i = k
    · subst hi
      by_cases h : i = j <;> simp [get?, h]
    · rw [if_neg hi]
      by_cases h : i = j
      · have hk : k ≠ j := fun hk => hi (h.trans hk.symm)
        simp [get?, h, hk]
      · simp only [get?, List.find?_cons, h, decide_false] at ih ⊢
        exact ih

/-- Members that are related one by one, each to one of its key, are so under every key. -/
theorem get?_related {R : κ × ν → κ × ν → Prop} (hkey : ∀ {m m'}, R m m' → m.1 = m'.1) {ms ms' : Table κ ν}
    (h : List.Forall₂ R ms ms') (k : κ) :
    ms.get? k = none ∧ ms'.get? k = none ∨ ∃ v v', ms.get? k = some v ∧ ms'.get? k = some v' ∧ R (k, v) (k, v') := by
  induction h with
  | nil => exact Or.inl ⟨rfl, rfl⟩
  | @cons m m' rest rest' hm _ ih =>
    obtain ⟨i, v⟩ := m
    obtain ⟨i', v'⟩ := m'
    obtain rfl : i = i' := hkey hm
    by_cases hi : i = k
    · subst hi
      exact Or.inr ⟨v, v', by simp [get?], by simp [get?], hm⟩
    · simpa [get?, hi] using ih

theorem get?_same {R : κ × ν → κ × ν → Prop} (hkey : ∀ {m m'}, R m m' → m.1 = m'.1) {ms ms' : Table κ ν}
    (h : List.Forall₂ R ms ms') {k : κ} (hsame : ∀ {v v'}, R (k, v) (k, v') → v = v') : ms'.get? k = ms.get? k := by
  rcases get?_related hkey h k with ⟨hv, hv'⟩ | ⟨v, v', hv, hv', hR⟩
  · rw [hv, hv']
  · rw [hv, hv', hsame hR]

end Table

namespace Json

/-! ## Members -/

theorem memberD_of_member {j v : Json} {key : Text} (h : j.member key = .ok v) (d : Json) : j.memberD key d = .ok v := by
  unfold member at h
  cases j with
  | object ms =>
    dsimp only at h
    split at h
    · next hget =>
      cases h
      rw [memberD, hget]
      rfl
    · cases h
  | _ => cases h

section Members

variable {ms ms' : List (Text × Json)} {R : Text × Json → Text × Json → Prop}
  (hkey : ∀ {m m'}, R m m' → m.1 = m'.1) (h : List.Forall₂ R ms ms') {k : Text} {β : Type} {g : Json → Except Fault β}
  (hg : ∀ {v v'}, R (k, v) (k, v') → g v' = g v)

include hkey h hg

theorem member_related : ((Json.object ms').member k >>= g) = ((Json.object ms).member k >>= g) := by
  unfold Json.member
  rcases Table.get?_related hkey h k with ⟨hv, hv'⟩ | ⟨v, v', hv, hv', hR⟩
  · simp only [hv, hv']
  · simp only [hv, hv']
    exact hg hR

theorem memberD_related (d : Json) : ((Json.object ms').memberD k d >>= g) = ((Json.object ms).memberD k d >>= g) := by
  show (Except.ok ((Table.get? ms' k).getD d) >>= g) = (Except.ok ((Table.get? ms k).getD d) >>= g)
  rcases Table.get?_related hkey h k with ⟨hv, hv'⟩ | ⟨v, v', hv, hv', hR⟩
  · rw [hv, hv']
  · rw [hv, hv']
    exact hg hR

end Members

theorem mapM_related {α β : Type} {R : α → α → Prop} {f : α → Except Fault β} {xs xs' : List α}
    (h : List.Forall₂ R xs xs') (hf : ∀ {x x'}, R x x' → f x' = f x) : xs'.mapM f = xs.mapM f := by
  induction h with
  | nil => rfl
  | cons hx _ ih => rw [List.mapM_cons, List.mapM_cons, hf hx, ih]

end Json

end NodeGauge
