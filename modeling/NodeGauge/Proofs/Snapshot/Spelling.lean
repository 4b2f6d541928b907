/-
  NodeGauge.Proofs.Snapshot.Spelling — how the addresses and public keys of a snapshot are
  spelled. A document in which they are spelled otherwise, with the same digits and letters,
  is the same snapshot (`Respelled.parseBy_eq`), for every key is made one form of when it is
  read. So a cycle finds the node, its minipools and their validators under any spelling of
  the node's address: `spelling_free`.
-/

import NodeGauge.Daemon
import NodeGauge.Proofs.Address.Spelling
import NodeGauge.Proofs.Cycle.Aside
import NodeGauge.Proofs.Json.Tables
import NodeGauge.Proofs.Rewards.Commits
import NodeGauge.Proofs.Snapshot.Reading

namespace NodeGauge

namespace Snapshot

open Address (SameAddress)
open Text (SameLetters)

/-! ## Other spellings -/

/-- The key may be spelled otherwise, and the values are related. -/
def Entry (R : Text → Text → Prop) (S : Json → Json → Prop) (m m' : Text × Json) : Prop :=
  (m.1 = m'.1 ∨ R m.1 m'.1) ∧ S m.2 m'.2

/-- A member of a minipool: the address or the public key may be spelled otherwise. -/
inductive Field : Text × Json → Text × Json → Prop where
  | same (m : Text × Json) : Field m m
  | address {t t' : Text} (h : SameAddress t t') : Field ("address", .text t) ("address", .text t')
  | pubkey {t t' : Text} (h : SameLetters t t') : Field ("pubkey", .text t) ("pubkey", .text t')

inductive Pool : Json → Json → Prop where
  | same (j : Json) : Pool j j
  | object {ms ms' : List (Text × Json)} (h : List.Forall₂ Field ms ms') : Pool (.object ms) (.object ms')

/-- The minipools of a node. -/
inductive Pools : Json → Json → Prop where
  | same (j : Json) : Pools j j
  | list {js js' : List Json} (h : List.Forall₂ Pool js js') : Pools (.list js) (.list js')

/-- A member of the document: in the three tables of it keys may be spelled otherwise, and
    minipools in theirs. -/
inductive Part : Text × Json → Text × Json → Prop where
  | same (m : Text × Json) : Part m m
  | nodes {es es' : List (Text × Json)} (h : List.Forall₂ (Entry SameAddress Eq) es es') :
    Part ("node_details", .object es) ("node_details", .object es')
  | minipools {es es' : List (Text × Json)} (h : List.Forall₂ (Entry SameAddress Pools) es es') :
    Part ("minipool_details", .object es) ("minipool_details", .object es')
  | validators {es es' : List (Text × Json)} (h : List.Forall₂ (Entry SameLetters Eq) es es') :
    Part ("validator_details", .object es) ("validator_details", .object es')

/-- The documents differ in how they spell addresses and public keys at most. -/
inductive Respelled : Json → Json → Prop where
  | same (j : Json) : Respelled j j
  | object {ms ms' : List (Text × Json)} (h : List.Forall₂ Part ms ms') : Respelled (.object ms) (.object ms')

variable {read : Json → Except Fault Int} {j j' : Json} {ms ms' : List (Text × Json)}

theorem Field.key_eq {m m' : Text × Json} (h : Field m m') : m.1 = m'.1 := by
  cases h <;> rfl

theorem Part.key_eq {m m' : Text × Json} (h : Part m m') : m.1 = m'.1 := by
  cases h <;> rfl

theorem Field.cases {k : Text} {v v' : Json} (h : Field (k, v) (k, v')) :
    v = v' ∨ ∃ t t', v = .text t ∧ v' = .text t' ∧
      (k = "address" ∧ SameAddress t t' ∨ k = "pubkey" ∧ SameLetters t t') := by
  generalize hm : (k, v) = m at h
  generalize hm' : (k, v') = m' at h
  cases h with
  | same => exact Or.inl (Prod.mk.inj (hm.trans hm'.symm)).2
  | @address t t' h =>
    obtain ⟨hk, hv⟩ := Prod.mk.inj hm
    exact Or.inr ⟨t, t', hv, (Prod.mk.inj hm').2, Or.inl ⟨hk, h⟩⟩
  | @pubkey t t' h =>
    obtain ⟨hk, hv⟩ := Prod.mk.inj hm
    exact Or.inr ⟨t, t', hv, (Prod.mk.inj hm').2, Or.inr ⟨hk, h⟩⟩

/-- What two tables of one name have to do with each other. -/
theorem Part.cases {k : Text} {v v' : Json} (h : Part (k, v) (k, v')) :
    v = v' ∨ ∃ es es', v = .object es ∧ v' = .object es' ∧
      (k = "node_details" ∧ List.Forall₂ (Entry SameAddress Eq) es es' ∨
       k = "minipool_details" ∧ List.Forall₂ (Entry SameAddress Pools) es es' ∨
       k = "validator_details" ∧ List.Forall₂ (Entry SameLetters Eq) es es') := by
  generalize hm : (k, v) = m at h
  generalize hm' : (k, v') = m' at h
  cases h with
  | same => exact Or.inl (Prod.mk.inj (hm.trans hm'.symm)).2
  | @nodes es es' h =>
    obtain ⟨hk, hv⟩ := Prod.mk.inj hm
    exact Or.inr ⟨es, es', hv, (Prod.mk.inj hm').2, Or.inl ⟨hk, h⟩⟩
  | @minipools es es' h =>
    obtain ⟨hk, hv⟩ := Prod.mk.inj hm
    exact Or.inr ⟨es, es', hv, (Prod.mk.inj hm').2, Or.inr (Or.inl ⟨hk, h⟩)⟩
  | @validators es es' h =>
    obtain ⟨hk, hv⟩ := Prod.mk.inj hm
    exact Or.inr ⟨es, es', hv, (Prod.mk.inj hm').2, Or.inr (Or.inr ⟨hk, h⟩)⟩

/-! ## A minipool -/

theorem ofJson_respelled {t t' : Text} (h : SameAddress t t') :
    Address.ofJson (.text t') = Address.ofJson (.text t) := by
  obtain ⟨a, ha, ha'⟩ := Address.sameAddress_iff.mp h
  simp only [Address.ofJson, ha, ha']

theorem lower_respelled {t t' : Text} (h : SameLetters t t') : t'.lower = t.lower :=
  ((Text.lower_eq_iff h.left h.right).mpr h).symm

theorem Pool.member_eq {β : Type} {g : Json → Except Fault β} (k : Text) (h : Pool j j')
    (hg : ∀ {v v'}, Field (k, v) (k, v') → g v' = g v) : (j'.member k >>= g) = (j.member k >>= g) := by
  cases h with
  | same => rfl
  | object h => exact Json.member_related Field.key_eq h hg

theorem Pool.memberD_eq {k : Text} (h : Pool j j') (ha : k ≠ "address") (hp : k ≠ "pubkey") (d : Json) :
    j'.memberD k d = j.memberD k d := by
  cases h with
  | same => rfl
  | object h =>
    have hget : Table.get? _ k = Table.get? _ k := Table.get?_same Field.key_eq h fun hf => by
      rcases hf.cases with heq | ⟨-, -, -, -, ⟨hk, -⟩ | ⟨hk, -⟩⟩
      · exact heq
      · exact absurd hk ha
      · exact absurd hk hp
    simp only [Json.memberD, hget]

theorem parseMinipool_respelled (h : Pool j j') : parseMinipool read j' = parseMinipool read j := by
  have haddress : (j'.member "address" >>= Address.ofJson) = (j.member "address" >>= Address.ofJson) := by
    refine h.member_eq "address" fun hf => ?_
    rcases hf.cases with rfl | ⟨t, t', rfl, rfl, ⟨-, ht⟩ | ⟨hk, -⟩⟩
    · rfl
    · exact ofJson_respelled ht
    · exact absurd hk (by decide)
  have hpubkey : (j'.member "pubkey" >>= Json.lowered) = (j.member "pubkey" >>= Json.lowered) := by
    refine h.member_eq "pubkey" fun hf => ?_
    rcases hf.cases with rfl | ⟨t, t', rfl, rfl, ⟨hk, -⟩ | ⟨-, ht⟩⟩
    · rfl
    · exact absurd hk (by decide)
    · exact congrArg Except.ok (lower_respelled ht)
  have hrest : ∀ (key : String) (d : Json), Text.ofString key ≠ "address" → Text.ofString key ≠ "pubkey" →
      j'.memberD key d = j.memberD key d := fun _ d ha hp => h.memberD_eq ha hp d
  unfold parseMinipool optional
  simp (disch := decide) only [← bind_assoc, haddress, hpubkey, hrest]

theorem parseMinipools_respelled (h : Pools j j') : parseMinipools read j' = parseMinipools read j := by
  cases h with
  | same => rfl
  | list h => exact Json.mapM_related h parseMinipool_respelled

/-! ## The tables -/

section TableFrom

variable {κ ν : Type} [DecidableEq κ] {key : Text → Except Fault κ} {value : Json → Except Fault ν}

theorem tableFrom_cons (t : Table κ ν) (e : Text × Json) (rest : List (Text × Json)) :
    tableFrom key value t (e :: rest) = (do
      let k ← key e.1
      let v ← value e.2
      tableFrom key value (t.put k v) rest) := by
  simp only [tableFrom, List.foldlM_cons, bind_assoc, pure_bind]

theorem tableFrom_related {R : Text → Text → Prop} {S : Json → Json → Prop} {es es' : List (Text × Json)}
    (h : List.Forall₂ (Entry R S) es es') (hkey : ∀ {s s'}, R s s' → key s' = key s)
    (hvalue : ∀ {v v'}, S v v' → value v' = value v) (t : Table κ ν) :
    tableFrom key value t es' = tableFrom key value t es := by
  induction h generalizing t with
  | nil => rfl
  | @cons e e' _ _ he _ ih =>
    have hk : key e'.1 = key e.1 := by
      rcases he.1 with heq | hR
      · rw [heq]
      · exact hkey hR
    simp only [tableFrom_cons, hk, hvalue he.2, ih]

end TableFrom

theorem Part.same_value {k : Text} {v v' : Json} (h : Part (k, v) (k, v')) (hn : k ≠ "node_details")
    (hm : k ≠ "minipool_details") (hv : k ≠ "validator_details") : v = v' := by
  rcases h.cases with heq | ⟨-, -, -, -, ⟨hk, -⟩ | ⟨hk, -⟩ | ⟨hk, -⟩⟩
  · exact heq
  · exact absurd hk hn
  · exact absurd hk hm
  · exact absurd hk hv

/-- What is under no table's name is the same. -/
theorem Respelled.rest_eq {k : Text} (h : Respelled j j') (hn : k ≠ "node_details") (hm : k ≠ "minipool_details")
    (hv : k ≠ "validator_details") : j'.member k = j.member k ∧ ∀ d, j'.memberD k d = j.memberD k d := by
  cases h with
  | same => exact ⟨rfl, fun _ => rfl⟩
  | object h =>
    have hget : Table.get? _ k = Table.get? _ k :=
      Table.get?_same Part.key_eq h fun hp => hp.same_value hn hm hv
    simp only [Json.member, Json.memberD, hget, implies_true, and_self]

/-- A table is the same if it is of entries that are read the same. -/
theorem Respelled.tableIn_eq {κ ν : Type} [DecidableEq κ] {key : Text → Except Fault κ} {value : Json → Except Fault ν}
    (name : String) (h : Respelled j j') (hpart : ∀ {v v'}, Part (name, v) (name, v') →
      (v'.entries >>= tableFrom key value []) = (v.entries >>= tableFrom key value [])) :
    tableIn name key value j' = tableIn name key value j := by
  cases h with
  | same => rfl
  | object h => exact Json.memberD_related Part.key_eq h hpart _

theorem Respelled.nodes_eq (h : Respelled j j') :
    tableIn "node_details" (fun t => Address.ofJson (.text t)) (parseNode read) j' =
      tableIn "node_details" (fun t => Address.ofJson (.text t)) (parseNode read) j := by
  refine h.tableIn_eq _ fun hp => ?_
  rcases hp.cases with rfl | ⟨es, es', rfl, rfl, ⟨-, he⟩ | ⟨hk, -⟩ | ⟨hk, -⟩⟩
  · rfl
  · exact tableFrom_related he ofJson_respelled (fun h => congrArg (parseNode read) h.symm) []
  · exact absurd hk (by decide)
  · exact absurd hk (by decide)

theorem Respelled.minipools_eq (h : Respelled j j') :
    tableIn "minipool_details" (fun t => Address.ofJson (.text t)) (parseMinipools read) j' =
      tableIn "minipool_details" (fun t => Address.ofJson (.text t)) (parseMinipools read) j := by
  refine h.tableIn_eq _ fun hp => ?_
  rcases hp.cases with rfl | ⟨es, es', rfl, rfl, ⟨hk, -⟩ | ⟨-, he⟩ | ⟨hk, -⟩⟩
  · rfl
  · exact absurd hk (by decide)
  · exact tableFrom_related he ofJson_respelled parseMinipools_respelled []
  · exact absurd hk (by decide)

theorem Respelled.validators_eq (h : Respelled j j') :
    tableIn "validator_details" (fun t => .ok t.lower) (parseValidator read) j' =
      tableIn "validator_details" (fun t => .ok t.lower) (parseValidator read) j := by
  refine h.tableIn_eq _ fun hp => ?_
  rcases hp.cases with rfl | ⟨es, es', rfl, rfl, ⟨hk, -⟩ | ⟨hk, -⟩ | ⟨-, he⟩⟩
  · rfl
  · exact absurd hk (by decide)
  · exact absurd hk (by decide)
  · exact tableFrom_related he (fun h => congrArg Except.ok (lower_respelled h))
      (fun h => congrArg (parseValidator read) h.symm)
      []

/-- A document with other spellings is the same snapshot, or the same fault. -/
theorem Respelled.parseBy_eq (h : Respelled j j') : parseBy read j' = parseBy read j := by
  have hnetwork := h.rest_eq (k := "network_details") (by decide) (by decide) (by decide)
  have hblock := h.rest_eq (k := "el_block_number") (by decide) (by decide) (by decide)
  have htotal := h.rest_eq (k := "total_effective_rpl_stake") (by decide) (by decide) (by decide)
  unfold parseBy required
  simp only [hnetwork.1, hblock.1, htotal.2, h.nodes_eq, h.minipools_eq, h.validators_eq]

/-! ## What is found in a table -/

section Lookup

variable {κ ν : Type} [DecidableEq κ] {key : Text → Except Fault κ} {value : Json → Except Fault ν}
  {es : List (Text × Json)} {t t' : Table κ ν} {k : κ}

theorem tableFrom_get?_of_not (h : tableFrom key value t es = .ok t') (hnone : ∀ e ∈ es, key e.1 ≠ .ok k) :
    t'.get? k = t.get? k := by
  induction es generalizing t with
  | nil =>
    cases h
    rfl
  | cons e rest ih =>
    rw [tableFrom_cons] at h
    obtain ⟨i, hi, h⟩ := except_bind_ok.mp h
    obtain ⟨x, -, h⟩ := except_bind_ok.mp h
    rw [List.forall_mem_cons] at hnone
    have hik : i ≠ k := by
      rintro rfl
      exact hnone.1 hi
    rw [ih h hnone.2, Table.get?_put, if_neg hik]

/-- Where every key is another one, the entry under a key is found by it. -/
theorem tableFrom_get?_of_mem (hother : es.Pairwise fun e e' => key e.1 = .ok k → key e'.1 ≠ .ok k)
    (h : tableFrom key value t es = .ok t') {e : Text × Json} (he : e ∈ es) (hk : key e.1 = .ok k) :
    ∃ x, value e.2 = .ok x ∧ t'.get? k = some x := by
  induction es generalizing t with
  | nil => cases he
  | cons e' rest ih =>
    rw [tableFrom_cons] at h
    obtain ⟨i, hi, h⟩ := except_bind_ok.mp h
    obtain ⟨x, hx, hrest⟩ := except_bind_ok.mp h
    rw [List.pairwise_cons] at hother
    rcases List.mem_cons.mp he with rfl | he
    · obtain rfl : i = k := Except.ok.inj (hi.symm.trans hk)
      refine ⟨x, hx, ?_⟩
      rw [tableFrom_get?_of_not hrest fun e' he' => hother.1 e' he' hk, Table.get?_put, if_pos rfl]
    · exact ih hother.2 hrest he

end Lookup

/-! ## What a cycle finds -/

/-- The entries of a table of the document, none if there is no such member. -/
def HasTable (j : Json) (name : Text) (es : List (Text × Json)) : Prop :=
  ∃ members, j = .object members ∧ (Table.get? members name).getD (.object []) = .object es

/-- The tables of a document in which no two keys spell one address or one public key, and
    public keys are in ASCII. -/
structure Plain (j : Json) (nodes minipools validators : List (Text × Json)) : Prop where
  hasNodes : HasTable j "node_details" nodes
  hasMinipools : HasTable j "minipool_details" minipools
  hasValidators : HasTable j "validator_details" validators
  oneNode : nodes.Pairwise fun e e' => ¬ SameAddress e.1 e'.1
  oneOwner : minipools.Pairwise fun e e' => ¬ SameAddress e.1 e'.1
  oneKey : validators.Pairwise fun e e' => ¬ SameLetters e.1 e'.1
  ascii : ∀ e ∈ validators, e.1.Ascii

/-- The minipool that is read, and its validator: the entry whose key is a spelling of the
    minipool's public key, or none. -/
structure FindsValidator (validators : List (Text × Json)) (s : Snapshot) (v : Json) (m : Minipool) : Prop where
  read : parseMinipool Json.toInt v = .ok m
  found : ∀ p, v.member "pubkey" = .ok (.text p) → p.Ascii → ∀ e ∈ validators, SameLetters p e.1 →
    ∃ x, parseValidator Json.toInt e.2 = .ok x ∧ s.validators.get? m.pubkey = some x
  absent : ∀ p, v.member "pubkey" = .ok (.text p) → p.Ascii → (∀ e ∈ validators, ¬ SameLetters p e.1) →
    s.validators.get? m.pubkey = none

/-- What is found at an address of which `t` is a spelling: the entries whose keys are
    spellings too. -/
structure Finds (nodes minipools validators : List (Text × Json)) (t : Text) (s : Snapshot) (a : Address) : Prop where
  node : ∀ e ∈ nodes, SameAddress t e.1 → ∃ d, parseNode Json.toInt e.2 = .ok d ∧ s.nodes.get? a = some d
  noNode : (∀ e ∈ nodes, ¬ SameAddress t e.1) → s.nodes.get? a = none
  owned : ∀ e ∈ minipools, SameAddress t e.1 → ∃ items found, e.2.elements = .ok items ∧
    s.minipools.get? a = some found ∧ List.Forall₂ (FindsValidator validators s) items found
  noneOwned : (∀ e ∈ minipools, ¬ SameAddress t e.1) → s.minipools.get? a = none

theorem HasTable.tableIn_eq {κ ν : Type} [DecidableEq κ] {key : Text → Except Fault κ} {value : Json → Except Fault ν}
    {name : String} {es : List (Text × Json)} (h : HasTable j name es) :
    tableIn name key value j = tableFrom key value [] es := by
  obtain ⟨members, rfl, hes⟩ := h
  show (Except.ok ((Table.get? members name).getD (.object [])) >>= fun v => v.entries >>= tableFrom key value []) = _
  rw [hes]
  rfl

theorem parseMinipool_pubkey {v : Json} {m : Minipool} {p : Text} (h : parseMinipool read v = .ok m)
    (hp : v.member "pubkey" = .ok (.text p)) : m.pubkey = p.lower := by
  unfold parseMinipool at h
  obtain ⟨_, -, h⟩ := except_bind_ok.mp h
  obtain ⟨_, -, h⟩ := except_bind_ok.mp h
  obtain ⟨_, hpubkey, h⟩ := except_bind_ok.mp h
  obtain ⟨pubkey, hlower, h⟩ := except_bind_ok.mp h
  rw [hp] at hpubkey
  cases hpubkey
  cases hlower
  obtain ⟨_, -, h⟩ := except_bind_ok.mp h
  obtain ⟨_, -, h⟩ := except_bind_ok.mp h
  obtain ⟨_, -, h⟩ := except_bind_ok.mp h
  obtain ⟨_, -, h⟩ := except_bind_ok.mp h
  obtain ⟨_, -, h⟩ := except_bind_ok.mp h
  obtain ⟨_, -, h⟩ := except_bind_ok.mp h
  cases h
  rfl

theorem ofJson_text_iff {t : Text} {a : Address} : Address.ofJson (.text t) = .ok a ↔ Address.ofText? t = some a := by
  cases h : Address.ofText? t <;> simp [Address.ofJson, h]

section Found

variable {ν : Type} {value : Json → Except Fault ν} {es : List (Text × Json)} {t : Text}

/-- In a table by addresses there is at an address what is under its spelling. -/
theorem address_found {tbl : Table Address ν} {a : Address} (ha : Address.ofText? t = some a)
    (hone : es.Pairwise fun e e' => ¬ SameAddress e.1 e'.1)
    (h : tableFrom (fun t => Address.ofJson (.text t)) value [] es = .ok tbl) :
    (∀ e ∈ es, SameAddress t e.1 → ∃ x, value e.2 = .ok x ∧ tbl.get? a = some x) ∧
    ((∀ e ∈ es, ¬ SameAddress t e.1) → tbl.get? a = none) := by
  have hother : es.Pairwise fun e e' =>
      Address.ofJson (.text e.1) = .ok a → Address.ofJson (.text e'.1) ≠ .ok a := by
    refine hone.imp fun {e e'} hne hk hk' => hne ?_
    exact Address.sameAddress_iff.mpr ⟨a, ofJson_text_iff.mp hk, ofJson_text_iff.mp hk'⟩
  constructor
  · intro e he hsame
    obtain ⟨a', ha', hk⟩ := Address.sameAddress_iff.mp hsame
    obtain rfl : a' = a := Option.some.inj (ha'.symm.trans ha)
    exact tableFrom_get?_of_mem hother h he (ofJson_text_iff.mpr hk)
  · intro hnone
    refine tableFrom_get?_of_not h fun e he hk => hnone e he ?_
    exact Address.sameAddress_iff.mpr ⟨a, ha, ofJson_text_iff.mp hk⟩

/-- In a table by public keys there is under one in lower case what is under its spelling. -/
theorem pubkey_found {tbl : Table Text ν} (ht : t.Ascii) (hascii : ∀ e ∈ es, e.1.Ascii)
    (hone : es.Pairwise fun e e' => ¬ SameLetters e.1 e'.1)
    (h : tableFrom (fun t => .ok t.lower) value [] es = .ok tbl) :
    (∀ e ∈ es, SameLetters t e.1 → ∃ x, value e.2 = .ok x ∧ tbl.get? t.lower = some x) ∧
    ((∀ e ∈ es, ¬ SameLetters t e.1) → tbl.get? t.lower = none) := by
  have hother : es.Pairwise fun e e' =>
      Except.ok (ε := Fault) e.1.lower = .ok t.lower → Except.ok (ε := Fault) e'.1.lower ≠ .ok t.lower := by
    refine hone.imp_of_mem fun {e e'} he he' hne hk hk' => hne ?_
    exact (Text.lower_eq_iff (hascii e he) (hascii e' he')).mp ((Except.ok.inj hk).trans (Except.ok.inj hk').symm)
  constructor
  · intro e he hsame
    exact tableFrom_get?_of_mem hother h he (congrArg Except.ok (lower_respelled hsame))
  · intro hnone
    refine tableFrom_get?_of_not h fun e he hk => hnone e he ?_
    exact (Text.lower_eq_iff ht (hascii e he)).mp (Except.ok.inj hk).symm

end Found

theorem forall₂_of_mapM {α β : Type} {f : α → Except Fault β} {R : α → β → Prop} (hR : ∀ {x y}, f x = .ok y → R x y)
    {xs : List α} {ys : List β} (h : xs.mapM f = .ok ys) : List.Forall₂ R xs ys := by
  induction xs generalizing ys with
  | nil =>
    cases h
    exact .nil
  | cons x rest ih =>
    obtain ⟨y, ys, hy, hys, rfl⟩ := (Rewards.mapM_cons_ok_iff f x rest _).mp h
    exact .cons (hR hy) (ih hys)

theorem Plain.finds {nodes minipools validators : List (Text × Json)} (h : Plain j nodes minipools validators)
    {s : Snapshot} {total : Option Wei} (hparse : parse j = .ok (s, total)) {t : Text} {a : Address}
    (ha : Address.ofText? t = some a) : Finds nodes minipools validators t s a := by
  obtain ⟨-, hnodes, hminipools, hvalidators, -, -⟩ := parts_of_parseBy hparse
  rw [h.hasNodes.tableIn_eq] at hnodes
  rw [h.hasMinipools.tableIn_eq] at hminipools
  rw [h.hasValidators.tableIn_eq] at hvalidators
  obtain ⟨hnode, hnoNode⟩ := address_found ha h.oneNode hnodes
  obtain ⟨howned, hnoneOwned⟩ := address_found ha h.oneOwner hminipools
  refine ⟨hnode, hnoNode, fun e he hsame => ?_, hnoneOwned⟩
  obtain ⟨found, hpools, hget⟩ := howned e he hsame
  obtain ⟨items, hitems, hfound⟩ := except_bind_ok.mp hpools
  refine ⟨items, found, hitems, hget, forall₂_of_mapM (fun {v m} hm => ?_) hfound⟩
  refine ⟨hm, fun p hp hascii => ?_, fun p hp hascii => ?_⟩
  · rw [parseMinipool_pubkey hm hp]
    exact (pubkey_found hascii h.ascii h.oneKey hvalidators).1
  · rw [parseMinipool_pubkey hm hp]
    exact (pubkey_found hascii h.ascii h.oneKey hvalidators).2

theorem nodeAddress_of_spelling (cfg : Settings) {t : Text} {a : Address} (h : Address.ofText? t = some a) :
    Daemon.nodeAddress { cfg with nodeAddress := t } = .ok a := by
  have hempty : t.isEmpty = false := by
    cases t with
    | mk cs =>
      cases cs with
      | nil => cases h
      | cons => rfl
  unfold Daemon.nodeAddress
  simp only [hempty, h, Bool.false_eq_true, if_false]

/-- Other spellings of the addresses and public keys of a document leave its snapshot what it
    is, and another spelling of the node's address leaves the cycle what it is: the address
    is one, and at it a cycle finds the entry of the node, its minipools and for each of these
    the validator, whatever the spellings are. -/
theorem spelling_free (cfg : Settings) {j j' : Json} {t t' : Text} (hj : Respelled j j') (ht : SameAddress t t') :
    parse j' = parse j ∧ ∃ a, Daemon.nodeAddress { cfg with nodeAddress := t } = .ok a ∧
      Daemon.nodeAddress { cfg with nodeAddress := t' } = .ok a ∧
      ∀ s total nodes minipools validators, parse j = .ok (s, total) → Plain j nodes minipools validators →
        Finds nodes minipools validators t s a ∧
        ∀ (w : World) effective, w.memory.snapshot = some s → w.memory.total = some effective →
          (Cycle.prepare a).answer w = .ok ((s.nodes.get? a).map fun details =>
            ⟨s, effective, details, (s.minipools.get? a).getD []⟩) := by
  obtain ⟨a, ha, ha'⟩ := Address.sameAddress_iff.mp ht
  refine ⟨hj.parseBy_eq, a, nodeAddress_of_spelling cfg ha, nodeAddress_of_spelling cfg ha', ?_⟩
  intro s total nodes minipools validators hparse hplain
  refine ⟨hplain.finds hparse ha, fun w effective hsnapshot htotal => ?_⟩
  rw [Cycle.prepare_answer, Cycle.basis?, hsnapshot, htotal, Option.map_eq_bind]
  rfl

/-! ### A node in capitals and in small letters -/

/-- The address of forty digits that are all this letter. -/
def spelled (mark : List Nat) (letter : Nat) : Text := ⟨mark ++ List.replicate 40 letter⟩

/-- A document of one node with one minipool and its validator. -/
def documentOf (node owner minipool pubkey key : Text) : Json :=
  .object [
    ("network_details", .object [
      ("rpl_inflation_interval_rate", .int 1000133680617113500), ("rpl_total_supply", .int 20000000000000000000000000),
      ("interval_duration", .int 2419200), ("node_operator_rewards_percent", .int 700000000000000000),
      ("rpl_price", .int 10000000000000000)]),
    ("node_details", .object [(node, .object [("rpl_stake", .int 5), ("effective_rpl_stake", .int 4)])]),
    ("minipool_details", .object [(owner, .list [.object [("address", .text minipool), ("pubkey", .text pubkey)]])]),
    ("validator_details", .object [(key, .object [("balance", .int 32000000000), ("activation_epoch", .int 7)])]),
    ("el_block_number", .int 100)]

def smallDocument : Json :=
  documentOf (spelled [48, 120] 97) (spelled [48, 120] 97) (spelled [48, 120] 98) "0xcd" "0xcd"

def mixedDocument : Json := documentOf (spelled [] 65) (spelled [48, 88] 97) (spelled [] 66) "0xCD" "0XcD"

theorem sameAddress_spelled {mark mark' : List Nat} {c c' : Nat} (hm : mark ∈ [[], [48, 120], [48, 88]])
    (hm' : mark' ∈ [[], [48, 120], [48, 88]]) (hc : Hex.IsDigit c) (hc' : Hex.IsDigit c')
    (h : Text.small c = Text.small c') : SameAddress (spelled mark c) (spelled mark' c') := by
  have hspells : ∀ {mark : List Nat} {c : Nat}, mark ∈ [[], [48, 120], [48, 88]] → Hex.IsDigit c →
      Address.Spells (spelled mark c) (List.replicate 40 c) := by
    intro mark c hm hc
    refine ⟨List.length_replicate, fun d hd => ?_, ?_⟩
    · obtain rfl := List.eq_of_mem_replicate hd
      exact hc
    · simp only [List.mem_cons, List.not_mem_nil, or_false] at hm
      rcases hm with rfl | rfl | rfl <;> simp [spelled]
  exact ⟨_, _, hspells hm hc, hspells hm' hc', by simp [h]⟩

theorem sameAddress_capitals : SameAddress (spelled [48, 120] 97) (spelled [] 65) :=
  sameAddress_spelled (by simp) (by simp) (by simp [Hex.IsDigit]) (by simp [Hex.IsDigit]) rfl

theorem mixed_respelled : Respelled smallDocument mixedDocument := by
  have howner : SameAddress (spelled [48, 120] 97) (spelled [48, 88] 97) :=
    sameAddress_spelled (by simp) (by simp) (by simp [Hex.IsDigit]) (by simp [Hex.IsDigit]) rfl
  have hminipool : SameAddress (spelled [48, 120] 98) (spelled [] 66) :=
    sameAddress_spelled (by simp) (by simp) (by simp [Hex.IsDigit]) (by simp [Hex.IsDigit]) rfl
  have hpubkey : SameLetters "0xcd" "0xCD" := ⟨by decide, by decide, rfl⟩
  have hkey : SameLetters "0xcd" "0XcD" := ⟨by decide, by decide, rfl⟩
  refine .object (.cons (.same _) (.cons (.nodes (.cons ⟨Or.inr sameAddress_capitals, rfl⟩ .nil)) (.cons (.minipools ?_)
    (.cons (.validators (.cons ⟨Or.inr hkey, rfl⟩ .nil)) (.cons (.same _) .nil)))))
  exact .cons ⟨Or.inr howner, .list (.cons (.object (.cons (.address hminipool) (.cons (.pubkey hpubkey) .nil))) .nil)⟩
    .nil

theorem smallDocument_parse : ∃ s, parse smallDocument = .ok (s, none) := ⟨_, rfl⟩

/-- The stake, the minipool and the validator are found from either document. -/
theorem spelling_free_mixed :
    ∃ s a, parse smallDocument = .ok (s, none) ∧ parse mixedDocument = .ok (s, none) ∧
      Daemon.nodeAddress { nodeAddress := spelled [48, 120] 97 } = .ok a ∧
      Daemon.nodeAddress { nodeAddress := spelled [] 65 } = .ok a ∧
      (∃ d, s.nodes.get? a = some d ∧ d.rplStake = 5) ∧
      ∃ m v, s.minipools.get? a = some [m] ∧ s.validators.get? m.pubkey = some v ∧ v.balance = 32000000000 := by
  have hself : SameAddress (spelled [48, 120] 97) (spelled [48, 120] 97) :=
    sameAddress_spelled (by simp) (by simp) (by simp [Hex.IsDigit]) (by simp [Hex.IsDigit]) rfl
  have hplain : Plain smallDocument
      [(spelled [48, 120] 97, .object [("rpl_stake", .int 5), ("effective_rpl_stake", .int 4)])]
      [(spelled [48, 120] 97, .list [.object [("address", .text (spelled [48, 120] 98)), ("pubkey", .text "0xcd")]])]
      [("0xcd", .object [("balance", .int 32000000000), ("activation_epoch", .int 7)])] := by
    refine ⟨⟨_, rfl, rfl⟩, ⟨_, rfl, rfl⟩, ⟨_, rfl, rfl⟩, .cons (by simp) .nil, .cons (by simp) .nil,
      .cons (by simp) .nil, ?_⟩
    simp only [List.forall_mem_singleton]
    decide
  obtain ⟨hsame, a, ha, ha', hfinds⟩ := spelling_free {} mixed_respelled sameAddress_capitals
  obtain ⟨s, hs⟩ := smallDocument_parse
  obtain ⟨⟨hfound, -, howned, -⟩, -⟩ := hfinds s none _ _ _ hs hplain
  obtain ⟨d, hd, hget⟩ := hfound _ (List.mem_singleton_self _) hself
  obtain ⟨items, found, hitems, hpools, hvalidators⟩ := howned _ (List.mem_singleton_self _) hself
  cases hd
  cases hitems
  cases hvalidators with
  | @cons _ m _ _ hm hnil =>
    cases hnil
    have hkey : SameLetters "0xcd" "0xcd" := ⟨by decide, by decide, rfl⟩
    obtain ⟨v, hv, hvalidator⟩ := hm.found "0xcd" rfl (by decide) _ (List.mem_singleton_self _) hkey
    cases hv
    exact ⟨s, a, hs, hsame.trans hs, ha, ha', ⟨_, hget, rfl⟩, m, _, hpools, hvalidator, rfl⟩

end Snapshot

end NodeGauge
