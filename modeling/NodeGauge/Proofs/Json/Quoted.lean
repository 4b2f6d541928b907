/-
  NodeGauge.Proofs.Json.Quoted — documents that hold the same integers, each plain or as a
  text that spells it. They are related from the inside out: integers under some keys of a
  record (`Record`), records in an object or in a list (`Inside`, `Each`). Whatever reads
  related values alike reads the documents alike (`Inside.member_eq`, `Inside.memberD_eq`).
-/

import NodeGauge.Proofs.Json.Integers
import NodeGauge.Proofs.Json.Numerals
import NodeGauge.Proofs.Json.Tables

namespace NodeGauge.Json

/-- The value is the integer, or a text that spells it. -/
inductive Holds (limit : Option Nat) : Json → Int → Prop where
  | plain (n : Int) : Holds limit (.int n) n
  | quoted {t : Text} {n : Int} (h : Spells limit t n) : Holds limit (.text t) n

/-- The values are the same but for how they write an integer. -/
def Alike (limit : Option Nat) (j j' : Json) : Prop := j = j' ∨ ∃ n, Holds limit j n ∧ Holds limit j' n

/-- The objects have the same keys, and under each of them related values. -/
inductive Inside (S : Text → Json → Json → Prop) : Json → Json → Prop where
  | same (j : Json) : Inside S j j
  | object {ms ms' : List (Text × Json)} (h : List.Forall₂ (fun m m' => m.1 = m'.1 ∧ S m.1 m.2 m'.2) ms ms') :
    Inside S (.object ms) (.object ms')

/-- The lists have related items. -/
inductive Each (S : Json → Json → Prop) : Json → Json → Prop where
  | same (j : Json) : Each S j j
  | list {js js' : List Json} (h : List.Forall₂ S js js') : Each S (.list js) (.list js')

/-- The objects are the same but for how they write the integers under these keys. -/
def Record (limit : Option Nat) (keys : List Text) : Json → Json → Prop :=
  Inside fun k v v' => v = v' ∨ k ∈ keys ∧ Alike limit v v'

variable {limit : Option Nat} {j j' : Json} {n : Int} {S : Text → Json → Json → Prop} {k : Text} {keys : List Text}

/-! ## Integers -/

theorem Holds.toIntIn_eq (h : Holds limit j n) : toIntIn limit j = .ok n := by
  cases h with
  | plain => rfl
  | quoted h => exact toIntIn_text_iff.mpr h

theorem Alike.toIntIn_eq (h : Alike limit j j') : toIntIn limit j' = toIntIn limit j := by
  rcases h with rfl | ⟨n, h, h'⟩
  · rfl
  · rw [h.toIntIn_eq, h'.toIntIn_eq]

/-! ## Members -/

theorem Inside.member_eq {β : Type} {g : Json → Except Fault β} (h : Inside S j j')
    (hg : ∀ {v v'}, S k v v' → g v' = g v) : (j'.member k >>= g) = (j.member k >>= g) := by
  cases h with
  | same => rfl
  | object h => exact member_related And.left h fun hm => hg hm.2

theorem Inside.memberD_eq {β : Type} {g : Json → Except Fault β} (h : Inside S j j')
    (hg : ∀ {v v'}, S k v v' → g v' = g v) (d : Json) : (j'.memberD k d >>= g) = (j.memberD k d >>= g) := by
  cases h with
  | same => rfl
  | object h => exact memberD_related And.left h (fun hm => hg hm.2) d

/-- Values that are related by being the same. -/
theorem Inside.same_of (h : Inside S j j') (hS : ∀ {v v'}, S k v v' → v = v') :
    j'.member k = j.member k ∧ ∀ d, j'.memberD k d = j.memberD k d := by
  cases h with
  | same => exact ⟨rfl, fun _ => rfl⟩
  | object h =>
    have hget : Table.get? _ k = Table.get? _ k := Table.get?_same And.left h fun hm => hS hm.2
    simp only [member, memberD, hget, implies_true, and_self]

theorem Record.required_eq (h : Record limit keys j j') (k : Text) :
    (j'.member k >>= toIntIn limit) = (j.member k >>= toIntIn limit) := by
  refine h.member_eq fun hv => ?_
  rcases hv with rfl | ⟨-, hv⟩
  · rfl
  · exact hv.toIntIn_eq

theorem Record.optional_eq (h : Record limit keys j j') (k : Text) (d : Json) :
    (j'.memberD k d >>= toIntIn limit) = (j.memberD k d >>= toIntIn limit) := by
  refine h.memberD_eq (fun hv => ?_) d
  rcases hv with rfl | ⟨-, hv⟩
  · rfl
  · exact hv.toIntIn_eq

/-- What is under another key is the same. -/
theorem Record.rest_eq (h : Record limit keys j j') (hk : k ∉ keys) :
    j'.member k = j.member k ∧ ∀ d, j'.memberD k d = j.memberD k d :=
  h.same_of fun hv => hv.resolve_right fun h => hk h.1

/-! ## Exact integers -/

/-- Each field of the record is the integer that the member of its name holds. -/
def Exact {ρ : Type} (limit : Option Nat) (fields : List (String × (ρ → Int))) (j : Json) (r : ρ) : Prop :=
  ∀ f ∈ fields, ∀ v n, j.member f.1 = .ok v → Holds limit v n → f.2 r = n

end NodeGauge.Json
