/-
  NodeGauge.Proofs.Json.Integers — what can be wrong with a document. Bytes that hold no
  value are malformed (`isMalformed_of_ofBytes`), and so is a value that has no integer,
  with one exception: an infinite number is of the right form (`toInt_infinite_iff`). Of
  several integers read one after the other the first that is missing decides, so the
  exception shows when that one is infinite (`InfiniteFirst`).
-/

import NodeGauge.Json.Reader

namespace NodeGauge

theorem except_bind_ok {α β : Type} {x : Except Fault α} {f : α → Except Fault β} {b : β} :
    x >>= f = .ok b ↔ ∃ a, x = .ok a ∧ f a = .ok b := by
  cases x with
  | error e => simp [Bind.bind, Except.bind]
  | ok a => simp [Bind.bind, Except.bind]

theorem except_bind_error {α β : Type} {x : Except Fault α} {f : α → Except Fault β} {e : Fault} :
    x >>= f = .error e ↔ x = .error e ∨ ∃ a, x = .ok a ∧ f a = .error e := by
  cases x with
  | error e' => simp [Bind.bind, Except.bind]
  | ok a => simp [Bind.bind, Except.bind]

theorem except_map_error {α β : Type} {x : Except Fault α} {f : α → β} {e : Fault} :
    x.map f = .error e ↔ x = .error e := by
  cases x <;> simp [Except.map]

namespace Json

/-! ## Integers -/

/-- A number past every double. -/
def IsInfinite (j : Json) : Prop := ∃ x, j = .double x ∧ x.isInf = true

variable {j : Json} {f : Fault}

/-- A value has an integer, or is malformed, or is infinite. -/
theorem toInt_cases (j : Json) :
    (∃ n, j.toInt = .ok n) ∧ ¬ j.IsInfinite ∨ j.toInt = .error .infinite ∧ j.IsInfinite ∨
      ∃ f, j.toInt = .error f ∧ f.isMalformed = true ∧ ¬ j.IsInfinite := by
  cases j with
  | double x =>
    cases x with
    | nan => exact Or.inr (Or.inr ⟨.notInteger, rfl, rfl, by simp [IsInfinite, Double.isInf]⟩)
    | num s r h =>
      by_cases hr : r = infRank
      · exact Or.inr (Or.inl ⟨by simp [toInt, integerOfDouble, hr], _, rfl, by simp [Double.isInf, hr]⟩)
      · exact Or.inl ⟨⟨_, if_neg hr⟩, by simp [IsInfinite, Double.isInf, hr]⟩
  | text t =>
    cases ht : integerOfText? t with
    | none => exact Or.inr (Or.inr ⟨.notInteger, by simp [toInt, ht], rfl, by simp [IsInfinite]⟩)
    | some n => exact Or.inl ⟨⟨n, by simp [toInt, ht]⟩, by simp [IsInfinite]⟩
  | int n => exact Or.inl ⟨⟨n, rfl⟩, by simp [IsInfinite]⟩
  | bool b => exact Or.inl ⟨⟨_, rfl⟩, by simp [IsInfinite]⟩
  | null | list _ | object _ => exact Or.inr (Or.inr ⟨.wrongKind, rfl, rfl, by simp [IsInfinite]⟩)

theorem toInt_infinite_iff : j.toInt = .error .infinite ↔ j.IsInfinite := by
  rcases toInt_cases j with ⟨⟨n, hn⟩, hi⟩ | ⟨hn, hi⟩ | ⟨f, hn, hf, hi⟩
  · simp [hn, hi]
  · simp [hn, hi]
  · simp only [hn, hi, Except.error.injEq, iff_false]
    rintro rfl
    cases hf

theorem isMalformed_of_toInt (h : j.toInt = .error f) : f.isMalformed = true ∨ f = .infinite := by
  rcases toInt_cases j with ⟨⟨n, hn⟩, -⟩ | ⟨hn, -⟩ | ⟨f', hn, hf, -⟩
  · cases hn.symm.trans h
  · cases hn.symm.trans h
    exact Or.inr rfl
  · cases hn.symm.trans h
    exact Or.inl hf

/-- The first of the values that has no integer is infinite. -/
def InfiniteFirst : List Json → Prop
  | [] => False
  | j :: js => j.IsInfinite ∨ (∃ n, j.toInt = .ok n) ∧ InfiniteFirst js

/-! ## Members -/

theorem isMalformed_of_member {key : Text} (h : j.member key = .error f) : f.isMalformed = true := by
  unfold member at h
  split at h
  · split at h <;> cases h
    rfl
  · cases h
    rfl

theorem isMalformed_of_elements (h : j.elements = .error f) : f.isMalformed = true := by
  cases j <;> cases h <;> rfl

/-! ## Documents -/

namespace Reader

variable {cs : List Nat}

theorem isMalformed_of_number {neg : Bool} (h : number neg cs = .error f) : f.isMalformed = true := by
  unfold number at h
  dsimp only at h
  split at h
  · cases h
    rfl
  · split at h
    · split at h <;> cases h
      rfl
    · cases h

theorem isMalformed_of_scalar (h : scalar cs = .error f) : f.isMalformed = true := by
  unfold scalar at h
  split at h
  · split at h <;> cases h
    rfl
  · split at h
    · cases h
    · exact isMalformed_of_number h
  · split at h <;> first | exact isMalformed_of_number h | cases h

/-- With this fuel nothing fails but on what is malformed: a value, the items of a list, the
    members of an object. -/
structure Malformed (fuel : Nat) : Prop where
  value : ∀ {cs f}, Reader.value fuel cs = .error f → f.isMalformed = true
  items : ∀ {cs f}, Reader.items fuel cs = .error f → f.isMalformed = true
  members : ∀ {acc cs f}, Reader.members fuel acc cs = .error f → f.isMalformed = true

variable {fuel : Nat}

theorem Malformed.value_succ (hm : Malformed fuel) (h : Reader.value (fuel + 1) cs = .error f) : f.isMalformed = true := by
  unfold Reader.value at h
  split at h
  · split at h
    · cases h
    · exact hm.items (except_map_error.mp h)
  · split at h
    · cases h
    · exact hm.members (except_map_error.mp h)
  · exact isMalformed_of_scalar h

theorem Malformed.items_succ (hm : Malformed fuel) (h : Reader.items (fuel + 1) cs = .error f) : f.isMalformed = true := by
  unfold Reader.items at h
  rcases except_bind_error.mp h with h | ⟨⟨v, r⟩, -, h⟩
  · exact hm.value h
  · dsimp only at h
    split at h
    · cases h
    · rcases except_bind_error.mp h with h | ⟨q, -, h⟩
      · exact hm.items h
      · cases h
    · cases h
      rfl

theorem Malformed.members_succ {acc : List (Text × Json)} (hm : Malformed fuel)
    (h : Reader.members (fuel + 1) acc cs = .error f) : f.isMalformed = true := by
  unfold Reader.members at h
  split at h
  · split at h
    · cases h
      rfl
    · split at h
      · rcases except_bind_error.mp h with h | ⟨⟨v, r⟩, -, h⟩
        · exact hm.value h
        · dsimp only at h
          split at h
          · cases h
          · exact hm.members h
          · cases h
            rfl
      · cases h
        rfl
  · cases h
    rfl

/-- By the recursion of the reader. -/
theorem malformed (fuel : Nat) : Malformed fuel := by
  induction fuel with
  | zero => refine ⟨fun h => ?_, fun h => ?_, fun h => ?_⟩ <;> cases h <;> rfl
  | succ fuel ih => exact ⟨ih.value_succ, ih.items_succ, ih.members_succ⟩

end Reader

/-- Bytes that hold no value are malformed. -/
theorem isMalformed_of_ofBytes {bs : Bytes} (h : ofBytes bs = .error f) : f.isMalformed = true := by
  unfold ofBytes at h
  split at h
  · cases h
    rfl
  · unfold parse at h
    split at h
    · split at h <;> cases h
      rfl
    · rename_i hvalue
      cases h
      exact (Reader.malformed _).value hvalue

end Json

end NodeGauge
