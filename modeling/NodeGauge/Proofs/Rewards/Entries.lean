/-
  NodeGauge.Proofs.Rewards.Entries — which part of a rewards tree counts for a node. The
  last entry under a key that is the node's address in some case of its letters is the only
  one that is read (`entryOf_eq`); without one, or with a null there, the tree does not list
  the node. So a tree may be written anew around that entry: `entry_decides`.
-/

import Mathlib.Data.List.Forall2
import NodeGauge.Proofs.Address.Spelling
import NodeGauge.Proofs.Rewards.Files

namespace NodeGauge.Rewards

/-! ## The keys that name a node -/

/-- The key of the member is the node's address but for the case of the letters. -/
def Names (node : Text) (m : Text × Json) : Prop := m.1.lower = node.lower

instance (node : Text) : DecidablePred (Names node) := fun m => inferInstanceAs (Decidable (m.1.lower = node.lower))

/-- What stands under the keys that name the node, in order. -/
def entriesOf (node : Text) (entries : List (Text × Json)) : List Json :=
  (entries.filter fun m => Names node m).map (·.2)

variable {node node' : Text} {entries entries' : List (Text × Json)}

/-- The entry of a node is the last one under its keys, unless it is null. -/
theorem entryOf_eq (node : Text) (entries : List (Text × Json)) :
    entryOf node entries = (entriesOf node entries).getLast?.filter fun e => !e.isNull := by
  have hfind : (entries.reverse.find? fun m => m.1.lower == node.lower).map (·.2) =
      (entriesOf node entries).getLast? := by
    rw [entriesOf, List.getLast?_map, ← List.head?_reverse, ← List.filter_reverse, List.head?_filter]
    rfl
  rw [← hfind, entryOf]
  rcases entries.reverse.find? _ with _ | ⟨key, _ | _ | _ | _ | _ | _ | _⟩ <;> rfl

theorem entryOf_none (h : ∀ e, (entriesOf node entries).getLast? = some e → e = .null) :
    entryOf node entries = none := by
  rw [entryOf_eq, Option.filter_eq_none_iff]
  intro e he
  rw [h e he]
  decide

theorem entryOf_some {e : Json} (h : (entriesOf node entries).getLast? = some e) (hnull : e ≠ .null) :
    entryOf node entries = some e := by
  rw [entryOf_eq, h]
  cases e <;> first | rfl | exact absurd rfl hnull

theorem entriesOf_node (h : node'.lower = node.lower) (entries : List (Text × Json)) :
    entriesOf node' entries = entriesOf node entries := by
  simp only [entriesOf, Names, h]
  rfl

/-! ## A tree written anew -/

/-- The members say the same under keys that differ in the case of the letters at most. -/
def Recased (m m' : Text × Json) : Prop := m.1.lower = m'.1.lower ∧ m.2 = m'.2

/-- The entries were written anew: keys in another case, entries of other nodes changed,
    added and taken out, and all of them in another order, but for those of the node among
    themselves. -/
inductive Retold (node : Text) : List (Text × Json) → List (Text × Json) → Prop where
  | recased {entries entries' : List (Text × Json)} (h : List.Forall₂ Recased entries entries') :
    Retold node entries entries'
  | changed (front rest : List (Text × Json)) {key : Text} (value value' : Json) (h : key.lower ≠ node.lower) :
    Retold node (front ++ (key, value) :: rest) (front ++ (key, value') :: rest)
  | added (front rest : List (Text × Json)) {m : Text × Json} (h : ¬ Names node m) :
    Retold node (front ++ rest) (front ++ m :: rest)
  | removed (front rest : List (Text × Json)) {m : Text × Json} (h : ¬ Names node m) :
    Retold node (front ++ m :: rest) (front ++ rest)
  | reordered {entries entries' : List (Text × Json)} (h : entries.Perm entries')
    (hown : (entries.filter fun m => Names node m) = entries'.filter fun m => Names node m) :
    Retold node entries entries'
  | trans {entries middle entries' : List (Text × Json)} (h : Retold node entries middle)
    (h' : Retold node middle entries') : Retold node entries entries'

theorem entriesOf_recased (h : List.Forall₂ Recased entries entries') :
    entriesOf node entries = entriesOf node entries' := by
  induction h with
  | nil => rfl
  | @cons m m' rest rest' hm _ ih =>
    obtain ⟨hkey, hvalue⟩ := hm
    simp only [entriesOf] at ih ⊢
    by_cases hn : Names node m
    · have hn' : Names node m' := hkey.symm.trans hn
      simp [hn, hn', hvalue, ih]
    · have hn' : ¬ Names node m' := fun hn' => hn (hkey.trans hn')
      simp [hn, hn', ih]

theorem entriesOf_insert (front rest : List (Text × Json)) {m : Text × Json} (h : ¬ Names node m) :
    entriesOf node (front ++ m :: rest) = entriesOf node (front ++ rest) := by
  simp [entriesOf, h]

/-- What stands under the keys of the node, and in which order, is kept. -/
theorem Retold.entriesOf_eq (h : Retold node entries entries') : entriesOf node entries = entriesOf node entries' := by
  induction h with
  | recased h => exact entriesOf_recased h
  | changed front rest value value' h =>
    rw [entriesOf_insert front rest (show ¬ Names node (_, value) from h),
      entriesOf_insert front rest (show ¬ Names node (_, value') from h)]
  | added front rest h => exact (entriesOf_insert front rest h).symm
  | removed front rest h => exact entriesOf_insert front rest h
  | reordered _ hown => rw [entriesOf, hown, entriesOf]
  | trans _ _ ih ih' => exact ih.trans ih'

/-! ## What is read -/

/-- An entry is understood where it is an object, its amounts are integers and its proof can
    be listed; the answer is made of these. -/
theorem readEntry_ok_iff (i : Int) (path : Text) (root entry : Json) (info : IntervalInfo) :
    readEntry i path root (some entry) = .ok info ↔ ∃ fields rpl dao eth items, entry = .object fields ∧
      (amountIn fields "collateralRpl").toInt = .ok rpl ∧ (amountIn fields "oracleDaoRpl").toInt = .ok dao ∧
      (amountIn fields "smoothingPoolEth").toInt = .ok eth ∧ (proofIn fields).elements = .ok items ∧
      info = { index := i, path, found := true, listed := true, collateralRpl := rpl, oracleDaoRpl := dao,
               smoothingPoolEth := eth, merkleRoot := root, merkleProof := items } := by
  constructor
  · intro h
    cases entry with
    | object fields =>
      rw [readEntry_fields] at h
      obtain ⟨rpl, hrpl, h⟩ := except_bind_ok.mp h
      obtain ⟨dao, hdao, h⟩ := except_bind_ok.mp h
      obtain ⟨eth, heth, h⟩ := except_bind_ok.mp h
      obtain ⟨items, hitems, h⟩ := except_bind_ok.mp h
      cases h
      exact ⟨fields, rpl, dao, eth, items, rfl, hrpl, hdao, heth, hitems, rfl⟩
    | _ => cases h
  · rintro ⟨fields, rpl, dao, eth, items, rfl, hrpl, hdao, heth, hitems, rfl⟩
    rw [readEntry_fields, hrpl, hdao, heth, hitems]
    rfl

/-- Of the entries of a tree only the last one under a key that names the node counts. If
    there is none or it is null, the node is not listed. Else it decides with the merkle root
    what is answered. So the answer is the same for an address in another case and for a tree
    that was written anew around the entries of the node. -/
theorem entry_decides (node : Text) (i : Int) (path : Text) {tree : Json} {entries : List (Text × Json)} {root : Json}
    (h : HasRewards tree entries root) :
    ((∀ e, (entriesOf node entries).getLast? = some e → e = .null) →
      parseTree node i path tree =
        .ok { index := i, path, found := true, listed := false, collateralRpl := 0, oracleDaoRpl := 0,
              smoothingPoolEth := 0, merkleRoot := root, merkleProof := [] }) ∧
    (∀ e, (entriesOf node entries).getLast? = some e → e ≠ .null →
      parseTree node i path tree = readEntry i path root (some e) ∧
      ∀ info, parseTree node i path tree = .ok info ↔ ∃ fields rpl dao eth items, e = .object fields ∧
        (amountIn fields "collateralRpl").toInt = .ok rpl ∧ (amountIn fields "oracleDaoRpl").toInt = .ok dao ∧
        (amountIn fields "smoothingPoolEth").toInt = .ok eth ∧ (proofIn fields).elements = .ok items ∧
        info = { index := i, path, found := true, listed := true, collateralRpl := rpl, oracleDaoRpl := dao,
                 smoothingPoolEth := eth, merkleRoot := root, merkleProof := items }) ∧
    ∀ node' tree' entries', node'.lower = node.lower → Retold node entries entries' → HasRewards tree' entries' root →
      parseTree node' i path tree' = parseTree node i path tree := by
  have hparse := parseTree_of_hasRewards node i path h
  refine ⟨?_, ?_, ?_⟩
  · intro hlast
    rw [hparse, entryOf_none hlast]
    rfl
  · intro e he hnull
    rw [hparse, entryOf_some he hnull]
    exact ⟨rfl, readEntry_ok_iff i path root e⟩
  · intro node' tree' entries' hnode hretold h'
    have hentry : entryOf node' entries' = entryOf node entries := by
      rw [entryOf_eq, entryOf_eq, entriesOf_node hnode, hretold.entriesOf_eq]
    rw [parseTree_of_hasRewards node' i path h', hentry, hparse]

/-! ### A node under two keys -/

/-- A tree of these entries. -/
def treeOf (entries : List (Text × Json)) : Json :=
  .object [("nodeRewards", .object entries), ("merkleRoot", .text "0x00")]

def owed : Json := .object [("collateralRpl", .text "5")]

/-- The node is under two keys, and what another node has is no entry at all. -/
def mixedEntries : List (Text × Json) := [("0xAB", .null), ("0xCD", .list []), ("0xab", owed)]

/-- The other node comes first now, with a number, a third one is new, and a key has another case. -/
def retoldEntries : List (Text × Json) := [("0xCD", .int 7), ("0xAB", .null), ("0xEF", .null), ("0xaB", owed)]

theorem mixedEntries_lower :
    Text.lower "0xAB" = Text.lower "0xAb" ∧ Text.lower "0xab" = Text.lower "0xAb" ∧
    Text.lower "0xaB" = Text.lower "0xAb" ∧ Text.lower "0xCD" ≠ Text.lower "0xAb" ∧
    Text.lower "0xEF" ≠ Text.lower "0xAb" := by
  have hascii : Text.Ascii "0xAB" ∧ Text.Ascii "0xab" ∧ Text.Ascii "0xaB" ∧ Text.Ascii "0xCD" ∧ Text.Ascii "0xEF" ∧
      Text.Ascii "0xAb" := by decide
  obtain ⟨hAB, hab, haB, hCD, hEF, hnode⟩ := hascii
  simp only [ne_eq, Text.lower_ascii, *]
  decide

theorem mixedEntries_own : entriesOf "0xAb" mixedEntries = [.null, owed] := by
  simp [entriesOf, mixedEntries, Names, mixedEntries_lower]

theorem mixedEntries_retold : Retold "0xAb" mixedEntries retoldEntries := by
  obtain ⟨-, hsmall, hmixed, hother, hthird⟩ := mixedEntries_lower
  have hchanged : Retold "0xAb" mixedEntries [("0xAB", .null), ("0xCD", .int 7), ("0xab", owed)] :=
    .changed [("0xAB", .null)] [("0xab", owed)] _ (.int 7) hother
  have hadded : Retold "0xAb" [("0xAB", .null), ("0xCD", .int 7), ("0xab", owed)]
      [("0xAB", .null), ("0xCD", .int 7), ("0xEF", .null), ("0xab", owed)] :=
    .added [("0xAB", .null), ("0xCD", .int 7)] [("0xab", owed)] (show ¬ Names "0xAb" ("0xEF", .null) from hthird)
  have hreordered : Retold "0xAb" [("0xAB", .null), ("0xCD", .int 7), ("0xEF", .null), ("0xab", owed)]
      [("0xCD", .int 7), ("0xAB", .null), ("0xEF", .null), ("0xab", owed)] := by
    refine .reordered (.swap _ _ _) ?_
    simp [Names, mixedEntries_lower]
  have hrecased : List.Forall₂ Recased [("0xCD", .int 7), ("0xAB", .null), ("0xEF", .null), ("0xab", owed)]
      retoldEntries :=
    .cons ⟨rfl, rfl⟩ (.cons ⟨rfl, rfl⟩ (.cons ⟨rfl, rfl⟩ (.cons ⟨hsmall.trans hmixed.symm, rfl⟩ .nil)))
  exact hchanged.trans (hadded.trans (hreordered.trans (.recased hrecased)))

/-- The entry under the last key is read, in both trees. -/
theorem entry_decides_mixed :
    ∃ info, parseTree "0xAb" 3 "trees/3.json" (treeOf mixedEntries) = .ok info ∧ info.listed = true ∧
      info.collateralRpl = 5 ∧ info.merkleProof = [] ∧
      parseTree "0xaB" 3 "trees/3.json" (treeOf retoldEntries) = .ok info := by
  have hrewards : HasRewards (treeOf mixedEntries) mixedEntries (.text "0x00") := ⟨_, rfl, rfl, rfl⟩
  have hretold : HasRewards (treeOf retoldEntries) retoldEntries (.text "0x00") := ⟨_, rfl, rfl, rfl⟩
  obtain ⟨-, hlast, hsame⟩ := entry_decides "0xAb" 3 "trees/3.json" hrewards
  obtain ⟨-, hok⟩ := hlast owed (by rw [mixedEntries_own]; rfl) (by rintro ⟨⟩)
  have hparse := (hok _).mpr ⟨_, 5, 0, 0, [], rfl, by decide +kernel, rfl, rfl, rfl, rfl⟩
  exact ⟨_, hparse, rfl, rfl, rfl,
    (hsame "0xaB" _ _ mixedEntries_lower.2.2.1 mixedEntries_retold hretold).trans hparse⟩

end NodeGauge.Rewards
