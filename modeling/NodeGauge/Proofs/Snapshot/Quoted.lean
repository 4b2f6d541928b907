/-
  NodeGauge.Proofs.Snapshot.Quoted — the integers of a snapshot's document, plain or quoted.
  Documents that hold the same integers are the same snapshot, or the same fault
  (`parseBy_requoted`), and what an accepted document holds under the name of a field is
  exactly what the snapshot has there (`kept_of_parseBy`).
-/

import Mathlib.Data.List.Nodup
import NodeGauge.Proofs.Json.Quoted
import NodeGauge.Proofs.Snapshot.Reading
import NodeGauge.Proofs.Snapshot.Spelling

namespace NodeGauge.Snapshot

open Json (Alike Each Exact Holds Inside Record toIntIn)

variable {limit : Option Nat} {j j' : Json}

/-! ## Other writings -/

/-- The names of the fields. -/
def keysOf {ρ : Type} (fields : List (String × (ρ → Int))) : List Text := fields.map fun f => Text.ofString f.1

/-- The members of a document that hold integers, and how they may differ. -/
def integerMembers (limit : Option Nat) : List (Text × (Json → Json → Prop)) := [
  ("network_details", Record limit (keysOf networkFields)),
  ("node_details", Inside fun _ => Record limit (keysOf nodeFields)),
  ("minipool_details", Inside fun _ => Each (Record limit (keysOf minipoolFields))),
  ("validator_details", Inside fun _ => Record limit (keysOf validatorFields)),
  ("el_block_number", Alike limit),
  ("total_effective_rpl_stake", Alike limit)]

/-- The documents are the same but for how they write integers. -/
def Requoted (limit : Option Nat) : Json → Json → Prop :=
  Inside fun k v v' => v = v' ∨ ∃ S, (k, S) ∈ integerMembers limit ∧ S v v'

theorem integerMembers_nodup : ((integerMembers limit).map Prod.fst).Nodup := by
  show List.Nodup [("network_details" : Text), "node_details", "minipool_details", "validator_details",
    "el_block_number", "total_effective_rpl_stake"]
  decide

/-- Such a member differs in its own way. -/
theorem integerMember_related {k : Text} {S : Json → Json → Prop} (hS : (k, S) ∈ integerMembers limit) {v v' : Json}
    (h : v = v' ∨ ∃ S, (k, S) ∈ integerMembers limit ∧ S v v') : v = v' ∨ S v v' := by
  refine h.imp_right fun ⟨T, hT, hv⟩ => ?_
  have hsame : (k, T) = (k, S) := List.inj_on_of_nodup_map integerMembers_nodup hT hS rfl
  cases hsame
  exact hv

/-! ## Records -/

theorem required_eq {keys : List Text} (h : Record limit keys j j') (key : String) :
    required (toIntIn limit) key j' = required (toIntIn limit) key j := h.required_eq key

theorem optional_eq {keys : List Text} (h : Record limit keys j j') (key : String) :
    optional (toIntIn limit) key j' = optional (toIntIn limit) key j := h.optional_eq key _

theorem parseNetwork_requoted (h : Record limit (keysOf networkFields) j j') :
    parseNetwork (toIntIn limit) j' = parseNetwork (toIntIn limit) j := by
  unfold parseNetwork
  simp only [required_eq h]

theorem parseNode_requoted (h : Record limit (keysOf nodeFields) j j') :
    parseNode (toIntIn limit) j' = parseNode (toIntIn limit) j := by
  unfold parseNode
  simp only [required_eq h, optional_eq h]

theorem parseMinipool_requoted (h : Record limit (keysOf minipoolFields) j j') :
    parseMinipool (toIntIn limit) j' = parseMinipool (toIntIn limit) j := by
  have haddress := (h.rest_eq (k := "address") (by decide)).1
  have hpubkey := (h.rest_eq (k := "pubkey") (by decide)).1
  have hfinalised := (h.rest_eq (k := "finalised") (by decide)).2
  unfold parseMinipool
  simp only [optional_eq h, haddress, hpubkey, hfinalised]

theorem parseValidator_requoted (h : Record limit (keysOf validatorFields) j j') :
    parseValidator (toIntIn limit) j' = parseValidator (toIntIn limit) j := by
  have hknown := (h.rest_eq (k := "exists") (by decide)).2
  unfold parseValidator
  simp only [optional_eq h, hknown]

theorem parseMinipools_requoted (h : Each (Record limit (keysOf minipoolFields)) j j') :
    parseMinipools (toIntIn limit) j' = parseMinipools (toIntIn limit) j := by
  cases h with
  | same => rfl
  | list h => exact Json.mapM_related h parseMinipool_requoted

theorem parseTotal_of_holds {n : Int} (h : Holds limit j n) : parseTotal (toIntIn limit) j = .ok (some n) := by
  have hn := h.toIntIn_eq
  cases h <;> simp [parseTotal, hn]

theorem parseTotal_requoted (h : Alike limit j j') :
    parseTotal (toIntIn limit) j' = parseTotal (toIntIn limit) j := by
  rcases h with rfl | ⟨n, h, h'⟩
  · rfl
  · rw [parseTotal_of_holds h, parseTotal_of_holds h']

/-! ## The document -/

section

variable {S : Json → Json → Prop} (h : Requoted limit j j')

include h

theorem member_requoted {k : Text} {β : Type} {g : Json → Except Fault β} (hS : (k, S) ∈ integerMembers limit)
    (hg : ∀ {v v'}, S v v' → g v' = g v) : (j'.member k >>= g) = (j.member k >>= g) := by
  refine h.member_eq fun hv => ?_
  rcases integerMember_related hS hv with rfl | hv
  · rfl
  · exact hg hv

theorem memberD_requoted {k : Text} {β : Type} {g : Json → Except Fault β} (hS : (k, S) ∈ integerMembers limit)
    (hg : ∀ {v v'}, S v v' → g v' = g v) (d : Json) : (j'.memberD k d >>= g) = (j.memberD k d >>= g) := by
  refine h.memberD_eq (fun hv => ?_) d
  rcases integerMember_related hS hv with rfl | hv
  · rfl
  · exact hg hv

/-- A table of values that are related. -/
theorem tableIn_requoted {κ ν : Type} [DecidableEq κ] {key : Text → Except Fault κ} {value : Json → Except Fault ν}
    {name : String} (hS : (Text.ofString name, Inside fun _ => S) ∈ integerMembers limit)
    (hvalue : ∀ {v v'}, S v v' → value v' = value v) : tableIn name key value j' = tableIn name key value j := by
  refine memberD_requoted h hS (fun {v v'} hv => ?_) _
  cases hv with
  | same => rfl
  | @object es es' hes =>
    have hentries : List.Forall₂ (Entry Eq S) es es' := hes.imp fun m m' he => ⟨Or.inl he.1, he.2⟩
    exact tableFrom_related hentries (fun heq => congrArg key heq.symm) hvalue []

end

/-- A document with other writings is the same snapshot, or the same fault. -/
theorem parseBy_requoted (h : Requoted limit j j') : parseBy (toIntIn limit) j' = parseBy (toIntIn limit) j := by
  have hnetwork : (j'.member "network_details" >>= parseNetwork (toIntIn limit)) =
      (j.member "network_details" >>= parseNetwork (toIntIn limit)) :=
    member_requoted (S := Record limit (keysOf networkFields)) h (by simp [integerMembers]) parseNetwork_requoted
  have hblock : required (toIntIn limit) "el_block_number" j' = required (toIntIn limit) "el_block_number" j :=
    member_requoted (S := Alike limit) h (by simp [integerMembers]) Alike.toIntIn_eq
  have htotal : (j'.memberD "total_effective_rpl_stake" .null >>= parseTotal (toIntIn limit)) =
      (j.memberD "total_effective_rpl_stake" .null >>= parseTotal (toIntIn limit)) :=
    memberD_requoted (S := Alike limit) h (by simp [integerMembers]) parseTotal_requoted .null
  have hnodes : tableIn "node_details" (fun t => Address.ofJson (.text t)) (parseNode (toIntIn limit)) j' =
      tableIn "node_details" (fun t => Address.ofJson (.text t)) (parseNode (toIntIn limit)) j :=
    tableIn_requoted (S := Record limit (keysOf nodeFields)) h (by simp [integerMembers]) parseNode_requoted
  have hminipools : tableIn "minipool_details" (fun t => Address.ofJson (.text t)) (parseMinipools (toIntIn limit)) j' =
      tableIn "minipool_details" (fun t => Address.ofJson (.text t)) (parseMinipools (toIntIn limit)) j :=
    tableIn_requoted (S := Each (Record limit (keysOf minipoolFields))) h (by simp [integerMembers]) parseMinipools_requoted
  have hvalidators : tableIn "validator_details" (fun t => .ok t.lower) (parseValidator (toIntIn limit)) j' =
      tableIn "validator_details" (fun t => .ok t.lower) (parseValidator (toIntIn limit)) j :=
    tableIn_requoted (S := Record limit (keysOf validatorFields)) h (by simp [integerMembers]) parseValidator_requoted
  unfold parseBy
  simp only [← bind_assoc, hnetwork, hblock, htotal, hnodes, hminipools, hvalidators]

/-! ## What is in a table -/

section Lookup

variable {κ ν : Type} [DecidableEq κ] {key : Text → Except Fault κ} {value : Json → Except Fault ν}
  {es : List (Text × Json)} {t t' : Table κ ν} {k : κ} {x : ν}

/-- The entry is the last one of the key. -/
def LastUnder (key : Text → Except Fault κ) (k : κ) (es : List (Text × Json)) (e : Text × Json) : Prop :=
  ∃ front rest, es = front ++ e :: rest ∧ key e.1 = .ok k ∧ ∀ e' ∈ rest, key e'.1 ≠ .ok k

/-- What is found in a table was read from the last entry of its key, or it was there before. -/
theorem tableFrom_get?_some (h : tableFrom key value t es = .ok t') (hx : t'.get? k = some x) :
    (∃ e, LastUnder key k es e ∧ value e.2 = .ok x) ∨ (∀ e ∈ es, key e.1 ≠ .ok k) ∧ t.get? k = some x := by
  induction es generalizing t with
  | nil =>
    cases h
    exact Or.inr ⟨nofun, hx⟩
  | cons e es ih =>
    rw [tableFrom_cons] at h
    obtain ⟨i, hi, h⟩ := except_bind_ok.mp h
    obtain ⟨y, hy, h⟩ := except_bind_ok.mp h
    rcases ih h with ⟨e', ⟨front, rest, rfl, hlast⟩, hvalue⟩ | ⟨hrest, hget⟩
    · exact Or.inl ⟨e', ⟨e :: front, rest, rfl, hlast⟩, hvalue⟩
    -- no later entry has the key, so it is this one's or it was there before
    · rw [Table.get?_put] at hget
      by_cases hik : i = k
      · rw [if_pos hik] at hget
        cases hget
        exact Or.inl ⟨e, ⟨[], es, rfl, hik ▸ hi, hrest⟩, hy⟩
      · rw [if_neg hik] at hget
        refine Or.inr ⟨List.forall_mem_cons.mpr ⟨fun hk => hik ?_, hrest⟩, hget⟩
        exact Except.ok.inj (hi.symm.trans hk)

theorem hasTable_of_entries {name : Text} {v : Json} (hv : j.memberD name (.object []) = .ok v)
    (hes : v.entries = .ok es) : HasTable j name es := by
  cases j with
  | object members =>
    cases hv
    refine ⟨members, rfl, ?_⟩
    cases hget : (Table.get? members name).getD (.object []) with
    | object es' =>
      rw [hget] at hes
      cases hes
      rfl
    | _ =>
      rw [hget] at hes
      cases hes
  | _ => cases hv

theorem tableIn_get?_some {name : String} (h : tableIn name key value j = .ok t) (hx : t.get? k = some x) :
    ∃ es e, HasTable j name es ∧ LastUnder key k es e ∧ value e.2 = .ok x := by
  obtain ⟨v, hv, h⟩ := except_bind_ok.mp h
  obtain ⟨es, hes, h⟩ := except_bind_ok.mp h
  have htable : HasTable j name es := hasTable_of_entries hv hes
  rcases tableFrom_get?_some (t := []) h hx with ⟨e, hlast, hvalue⟩ | ⟨-, hnone⟩
  · exact ⟨es, e, htable, hlast, hvalue⟩
  · cases hnone

end Lookup

/-! ## What is parsed -/

theorem exact_of_tells {ρ : Type} {fields : List (String × (ρ → Int))} {r : ρ}
    (h : Tells (toIntIn limit) fields j r) : Exact limit fields j r := by
  intro f hf v n hv hn
  have hread := h f hf v hv
  rw [hn.toIntIn_eq] at hread
  exact (Except.ok.inj hread).symm

/-- Each integer of the snapshot is the one that the document holds for it. Of several
    entries of a table under one key the last one counts. -/
structure Kept (limit : Option Nat) (j : Json) (s : Snapshot) (total : Option Wei) : Prop where
  network : ∃ v, j.member "network_details" = .ok v ∧ Exact limit networkFields v s.network
  nodes : ∀ a d, s.nodes.get? a = some d → ∃ es e, HasTable j "node_details" es ∧
    LastUnder (fun t => Address.ofJson (.text t)) a es e ∧ Exact limit nodeFields e.2 d
  minipools : ∀ a ms, s.minipools.get? a = some ms → ∃ es e items, HasTable j "minipool_details" es ∧
    LastUnder (fun t => Address.ofJson (.text t)) a es e ∧ e.2.elements = .ok items ∧
    List.Forall₂ (Exact limit minipoolFields) items ms
  validators : ∀ p x, s.validators.get? p = some x → ∃ es e, HasTable j "validator_details" es ∧
    LastUnder (fun t => .ok t.lower) p es e ∧ Exact limit validatorFields e.2 x
  block : ∀ v n, j.member "el_block_number" = .ok v → Holds limit v n → s.block = n
  total : ∀ v n, j.member "total_effective_rpl_stake" = .ok v → Holds limit v n → total = some n

theorem kept_of_parseBy {s : Snapshot} {total : Option Wei} (h : parseBy (toIntIn limit) j = .ok (s, total)) :
    Kept limit j s total := by
  have hparts := parts_of_parseBy h
  refine ⟨?_, ?_, ?_, ?_, ?_, ?_⟩
  · obtain ⟨v, hv, hnetwork⟩ := hparts.network
    exact ⟨v, hv, exact_of_tells (parseNetwork_tells hnetwork).1⟩
  · intro a d hd
    obtain ⟨es, e, htable, hlast, hnode⟩ := tableIn_get?_some hparts.nodes hd
    exact ⟨es, e, htable, hlast, exact_of_tells (parseNode_tells hnode)⟩
  · intro a ms hms
    obtain ⟨es, e, htable, hlast, hpools⟩ := tableIn_get?_some hparts.minipools hms
    obtain ⟨items, hitems, hpools⟩ := except_bind_ok.mp hpools
    have hexact : ∀ {v m}, parseMinipool (toIntIn limit) v = .ok m → Exact limit minipoolFields v m :=
      fun hm => exact_of_tells (parseMinipool_tells hm)
    exact ⟨es, e, items, htable, hlast, hitems, forall₂_of_mapM hexact hpools⟩
  · intro p x hx
    obtain ⟨es, e, htable, hlast, hvalidator⟩ := tableIn_get?_some hparts.validators hx
    exact ⟨es, e, htable, hlast, exact_of_tells (parseValidator_tells hvalidator)⟩
  · intro v n hv hn
    have hread := required_tells hparts.block hv
    rw [hn.toIntIn_eq] at hread
    exact (Except.ok.inj hread).symm
  · intro v n hv hn
    obtain ⟨u, hu, htotal⟩ := hparts.total
    obtain rfl : u = v := Except.ok.inj (hu.symm.trans (Json.memberD_of_member hv _))
    rw [parseTotal_of_holds hn] at htotal
    exact (Except.ok.inj htotal).symm

end NodeGauge.Snapshot
