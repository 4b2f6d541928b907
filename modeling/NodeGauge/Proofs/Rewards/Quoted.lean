/-
  NodeGauge.Proofs.Rewards.Quoted — the integers of a rewards tree, plain or quoted. Trees
  that hold the same integers say the same about a node (`parseTreeBy_requoted`), and the
  amounts that are told are exactly those of the node's entry (`exact_of_parseTreeBy`).

  `quoted_alike`: with snapshots, for any limit on the digits of a text and for none.
-/

import NodeGauge.Proofs.Rewards.Entries
import NodeGauge.Proofs.Snapshot.Quoted

namespace NodeGauge.Rewards

open Json (Exact Inside Record Spells toIntIn)
open Snapshot (keysOf)

variable {limit : Option Nat} {node path : Text} {i : Int} {tree tree' : Json}

def amountFields : List (String × (IntervalInfo → Int)) := [
  ("collateralRpl", (·.collateralRpl)), ("oracleDaoRpl", (·.oracleDaoRpl)), ("smoothingPoolEth", (·.smoothingPoolEth))]

/-! ## Other writings -/

/-- The entries of the nodes are the same but for how they write their amounts. -/
abbrev Entries (limit : Option Nat) : Json → Json → Prop := Inside fun _ => Record limit (keysOf amountFields)

/-- The trees are the same but for how they write amounts. -/
def Requoted (limit : Option Nat) : Json → Json → Prop :=
  Inside fun k v v' => v = v' ∨ k = "nodeRewards" ∧ Entries limit v v'

theorem find?_related {α : Type} {R : α → α → Prop} {p : α → Bool} (hp : ∀ {x x'}, R x x' → p x' = p x) {xs xs' : List α}
    (h : List.Forall₂ R xs xs') :
    xs.find? p = none ∧ xs'.find? p = none ∨ ∃ x x', xs.find? p = some x ∧ xs'.find? p = some x' ∧ R x x' := by
  induction h with
  | nil => exact Or.inl ⟨rfl, rfl⟩
  | @cons x x' rest rest' hx _ ih =>
    rw [List.find?_cons, List.find?_cons, hp hx]
    cases p x with
    | true => exact Or.inr ⟨x, x', rfl, rfl, hx⟩
    | false => exact ih

/-- The entry of a node is missing in both, or it is related. -/
theorem entryOf_related {keys : List Text} {es es' : List (Text × Json)}
    (h : List.Forall₂ (fun m m' => m.1 = m'.1 ∧ Record limit keys m.2 m'.2) es es') (node : Text) :
    entryOf node es = none ∧ entryOf node es' = none ∨
      ∃ e e', entryOf node es = some e ∧ entryOf node es' = some e' ∧ Record limit keys e e' := by
  have hfind := find?_related (p := fun m => m.1.lower == node.lower) (fun hm => by rw [hm.1])
    (List.forall₂_reverse_iff.mpr h)
  unfold entryOf
  rcases hfind with ⟨hx, hx'⟩ | ⟨⟨k, e⟩, ⟨k', e'⟩, hx, hx', -, he⟩
  · rw [hx, hx']
    exact Or.inl ⟨rfl, rfl⟩
  · rw [hx, hx']
    cases he with
    | object hms => exact Or.inr ⟨_, _, rfl, rfl, .object hms⟩
    | same =>
      cases e with
      | null => exact Or.inl ⟨rfl, rfl⟩
      | _ => exact Or.inr ⟨_, _, rfl, rfl, .same _⟩

theorem infoOf_requoted {e e' : Json} (h : Record limit (keysOf amountFields) e e') :
    infoOf (toIntIn limit) i path tree (some e') = infoOf (toIntIn limit) i path tree (some e) := by
  have hamount : ∀ key, amount (toIntIn limit) e' key = amount (toIntIn limit) e key := fun key =>
    h.optional_eq key _
  have hproof := (h.rest_eq (k := "merkleProof") (by decide)).2
  simp only [infoOf, hamount, hproof]

/-- A tree with other writings says the same, or it is the same fault. -/
theorem parseTreeBy_requoted (h : Requoted limit tree tree') (node : Text) (i : Int) (path : Text) :
    parseTreeBy (toIntIn limit) node i path tree' = parseTreeBy (toIntIn limit) node i path tree := by
  have hroot : infoOf (toIntIn limit) i path tree' = infoOf (toIntIn limit) i path tree := by
    have hmember := (h.same_of (k := "merkleRoot") fun hv => hv.resolve_right fun hk => absurd hk.1 (by decide)).2
    funext entry
    cases entry <;> simp only [infoOf, hmember]
  unfold parseTreeBy
  rw [hroot]
  refine h.memberD_eq (k := "nodeRewards") (fun {v v'} hv => ?_) _
  rcases hv with rfl | ⟨-, hv⟩
  · rfl
  · cases hv with
    | same => rfl
    | object hes =>
      show infoOf _ i path tree (entryOf node _) = infoOf _ i path tree (entryOf node _)
      rcases entryOf_related hes node with ⟨he, he'⟩ | ⟨e, e', he, he', hrecord⟩
      · rw [he, he']
      · rw [he, he', infoOf_requoted hrecord]

/-! ## What is told -/

theorem amount_exact {e : Json} {key : Text} {x : Wei} (h : amount (toIntIn limit) e key = .ok x) {v : Json} {n : Int}
    (hv : e.member key = .ok v) (hn : Json.Holds limit v n) : x = n := by
  unfold amount at h
  rw [Json.memberD_of_member hv] at h
  exact Except.ok.inj (h.symm.trans hn.toIntIn_eq)

/-- The amounts that are told are those that the node's entry holds. -/
theorem exact_of_parseTreeBy {info : IntervalInfo} (h : parseTreeBy (toIntIn limit) node i path tree = .ok info)
    (hlisted : info.listed = true) :
    ∃ entries e, Snapshot.HasTable tree "nodeRewards" entries ∧ entryOf node entries = some e ∧
      Exact limit amountFields e info := by
  obtain ⟨v, hv, h⟩ := except_bind_ok.mp h
  obtain ⟨entries, hentries, h⟩ := except_bind_ok.mp h
  cases he : entryOf node entries with
  | none =>
    rw [he] at h
    obtain ⟨_, -, h⟩ := except_bind_ok.mp h
    cases h
    cases hlisted
  | some e =>
    refine ⟨entries, e, Snapshot.hasTable_of_entries hv hentries, he, ?_⟩
    rw [he] at h
    obtain ⟨_, hrpl, h⟩ := except_bind_ok.mp h
    obtain ⟨_, hdao, h⟩ := except_bind_ok.mp h
    obtain ⟨_, heth, h⟩ := except_bind_ok.mp h
    obtain ⟨_, -, h⟩ := except_bind_ok.mp h
    obtain ⟨_, -, h⟩ := except_bind_ok.mp h
    obtain ⟨_, -, h⟩ := except_bind_ok.mp h
    cases h
    simp only [Exact, amountFields, List.forall_mem_cons]
    exact ⟨fun _ _ => amount_exact hrpl, fun _ _ => amount_exact hdao, fun _ _ => amount_exact heth, nofun⟩

/-- An integer may be written plain or as a text of its digits, with a sign, blanks around
    them and single underscores between them, at any size: documents that differ in nothing
    else are the same snapshot, or tree, or fault. What is parsed is exactly the integer that
    is written. That holds for any limit on the digits of a text, and for none; the documents
    are parsed under one. -/
theorem quoted_alike (limit : Option Nat) :
    (∀ t n, toIntIn limit (.text t) = .ok n ↔ Spells limit t n) ∧
    (∀ n : Int, (∀ m ∈ limit, 0 < m ∧ n.natAbs < 10 ^ m) → Spells limit (Text.ofInt n) n) ∧
    (∀ j j', Snapshot.Requoted limit j j' →
      Snapshot.parseBy (toIntIn limit) j' = Snapshot.parseBy (toIntIn limit) j) ∧
    (∀ j s total, Snapshot.parseBy (toIntIn limit) j = .ok (s, total) → Snapshot.Kept limit j s total) ∧
    (∀ tree tree', Requoted limit tree tree' → ∀ node i path,
      parseTreeBy (toIntIn limit) node i path tree' = parseTreeBy (toIntIn limit) node i path tree) ∧
    (∀ node i path tree info, parseTreeBy (toIntIn limit) node i path tree = .ok info → info.listed = true →
      ∃ entries e, Snapshot.HasTable tree "nodeRewards" entries ∧ entryOf node entries = some e ∧
        Exact limit amountFields e info) ∧
    Snapshot.parseBy (toIntIn (some Json.maxDigits)) = Snapshot.parse ∧
    parseTreeBy (toIntIn (some Json.maxDigits)) = parseTree := by
  refine ⟨fun t n => Json.toIntIn_text_iff, fun n h => Json.spells_ofInt h, fun j j' => Snapshot.parseBy_requoted,
    fun j s total => Snapshot.kept_of_parseBy, fun tree tree' => parseTreeBy_requoted,
    fun node i path tree info => exact_of_parseTreeBy, ?_, ?_⟩
  · rw [Json.toIntIn_maxDigits, Snapshot.parse]
  · rw [Json.toIntIn_maxDigits, parseTree]

/-! ### An integer that is no double -/

/-- A network in which all is zero but the inflation. -/
def inflatedNetwork (rate : Json) : Json := .object [
  ("rpl_inflation_interval_rate", rate), ("rpl_total_supply", .int 0), ("interval_duration", .int 0),
  ("node_operator_rewards_percent", .int 0), ("rpl_price", .int 0)]

def inflatedDocument (rate : Json) : Json := .object [
  ("network_details", inflatedNetwork rate), ("el_block_number", .int 100)]

def inflatedSnapshot : Snapshot where
  block := 100
  network := ⟨2 ^ 53 + 1, 0, 0, 0, 0⟩
  nodes := []
  minipools := []
  validators := []

/-- Written in groups of three digits it is read as it stands. -/
theorem quoted_alike_above_doubles :
    Snapshot.parseBy (toIntIn none) (inflatedDocument (.int (2 ^ 53 + 1))) = .ok (inflatedSnapshot, none) ∧
    Snapshot.parseBy (toIntIn none) (inflatedDocument (.text " +9_007_199_254_740_993 ")) =
      .ok (inflatedSnapshot, none) := by
  obtain ⟨hspells, -, hsame, -⟩ := quoted_alike none
  have htext : Spells none " +9_007_199_254_740_993 " (2 ^ 53 + 1) := (hspells _ _).mp (by decide +kernel)
  have hnetwork : Record none (keysOf Snapshot.networkFields) (inflatedNetwork (.int (2 ^ 53 + 1)))
      (inflatedNetwork (.text " +9_007_199_254_740_993 ")) := by
    refine .object (.cons ⟨rfl, Or.inr ⟨by decide, Or.inr ⟨_, .plain _, .quoted htext⟩⟩⟩ ?_)
    exact List.forall₂_same.mpr fun _ _ => ⟨rfl, Or.inl rfl⟩
  have hrequoted : Snapshot.Requoted none (inflatedDocument (.int (2 ^ 53 + 1)))
      (inflatedDocument (.text " +9_007_199_254_740_993 ")) :=
    .object (.cons ⟨rfl, Or.inr ⟨_, by simp [Snapshot.integerMembers], hnetwork⟩⟩ (.cons ⟨rfl, Or.inl rfl⟩ .nil))
  have hparse : Snapshot.parseBy (toIntIn none) (inflatedDocument (.int (2 ^ 53 + 1))) = .ok (inflatedSnapshot, none) := by
    decide +kernel
  exact ⟨hparse, (hsame _ _ hrequoted).trans hparse⟩

end NodeGauge.Rewards
