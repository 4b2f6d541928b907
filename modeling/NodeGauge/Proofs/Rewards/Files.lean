/-
  NodeGauge.Proofs.Rewards.Files — what can come of a tree file. That there is none is an
  answer, a file that can be understood is one too (`Legible`), and all else is a fault that
  names the file. There is one gap: an amount may be infinite, which is a number a document
  can hold and an integer it cannot be read as. Where such an amount is the first that
  cannot be read (`Overflows`), the fault stays what it is and names no file:
  `intervalOf_classified`.
-/

import Mathlib.Data.List.Basic
import NodeGauge.Proofs.Json.Integers
import NodeGauge.Rewards.Tree

namespace NodeGauge

/-- A fault in resolving rewards, about this file and this interval. -/
def Fault.OfTree (path : Text) (i : Int) : Fault → Prop
  | treeUnreadable p j _ | treeMalformed p j _ => p = path ∧ j = i
  | _ => False

theorem Fault.OfTree.ne_infinite {path : Text} {i : Int} {f : Fault} (h : f.OfTree path i) : f ≠ .infinite := by
  rintro rfl
  exact h

namespace Rewards

open Json (InfiniteFirst IsInfinite)

/-! ## What a tree holds for a node -/

/-- The tree is an object and its rewards by node are one, empty if it has none; the node's
    entry in them. -/
def Holds (node : Text) (tree : Json) (entry : Option Json) : Prop :=
  ∃ members entries, tree = .object members ∧
    (Table.get? members "nodeRewards").getD (.object []) = .object entries ∧ entryOf node entries = entry

/-- The tree is an object; its rewards by node are these entries, none if it has no such
    member, and its merkle root is this, null if it has none. -/
def HasRewards (tree : Json) (entries : List (Text × Json)) (root : Json) : Prop :=
  ∃ members, tree = .object members ∧ (Table.get? members "nodeRewards").getD (.object []) = .object entries ∧
    (Table.get? members "merkleRoot").getD .null = root

/-- An amount of an entry, 0 where it is missing. -/
def amountIn (fields : List (Text × Json)) (key : Text) : Json := (Table.get? fields key).getD (.int 0)

/-- The amounts in the order they are read. -/
def amountsIn (fields : List (Text × Json)) : List Json :=
  [amountIn fields "collateralRpl", amountIn fields "oracleDaoRpl", amountIn fields "smoothingPoolEth"]

/-- The merkle proof of an entry, empty where it is missing. -/
def proofIn (fields : List (Text × Json)) : Json := (Table.get? fields "merkleProof").getD (.list [])

/-- The tree does not name the node, or its entry is an object of integers with a proof that
    can be listed. -/
def Legible (node : Text) (tree : Json) : Prop :=
  Holds node tree none ∨ ∃ fields, Holds node tree (some (.object fields)) ∧
    (∀ j ∈ amountsIn fields, ∃ n, j.toInt = .ok n) ∧ ∃ items, (proofIn fields).elements = .ok items

/-- The first amount of the node's entry that has no integer is infinite. -/
def Overflows (node : Text) (tree : Json) : Prop :=
  ∃ fields, Holds node tree (some (.object fields)) ∧ InfiniteFirst (amountsIn fields)

variable {node : Text} {i : Int} {path : Text} {tree : Json} {f : Fault}

/-- What is read of the node's entry once the tree has been gone into. -/
def readEntry (i : Int) (path : Text) (root : Json) : Option Json → Except Fault IntervalInfo
  | none => .ok { index := i, path, found := true, merkleRoot := root }
  | some entry => do
    let collateralRpl ← amount Json.toInt entry "collateralRpl"
    let oracleDaoRpl ← amount Json.toInt entry "oracleDaoRpl"
    let smoothingPoolEth ← amount Json.toInt entry "smoothingPoolEth"
    let merkleProof ← (← entry.memberD "merkleProof" (.list [])).elements
    return { index := i, path, found := true, listed := true, collateralRpl, oracleDaoRpl, smoothingPoolEth,
             merkleRoot := root, merkleProof }

theorem parseTree_object (node : Text) (i : Int) (path : Text) (members : List (Text × Json)) :
    parseTree node i path (.object members) =
      ((Table.get? members "nodeRewards").getD (.object [])).entries >>= fun entries =>
        readEntry i path ((Table.get? members "merkleRoot").getD .null) (entryOf node entries) := by
  refine congrArg (Except.bind ((Table.get? members "nodeRewards").getD (.object [])).entries) (funext fun entries => ?_)
  show infoOf _ i path _ (entryOf node entries) = _
  cases entryOf node entries <;> rfl

theorem parseTree_of_hasRewards (node : Text) (i : Int) (path : Text) {entries : List (Text × Json)} {root : Json}
    (h : HasRewards tree entries root) :
    parseTree node i path tree = readEntry i path root (entryOf node entries) := by
  obtain ⟨members, rfl, hrewards, rfl⟩ := h
  rw [parseTree_object, hrewards]
  rfl

theorem parseTree_of_holds (i : Int) (path : Text) {entry : Option Json} (h : Holds node tree entry) :
    ∃ root, parseTree node i path tree = readEntry i path root entry := by
  obtain ⟨members, entries, rfl, hrewards, rfl⟩ := h
  exact ⟨_, parseTree_of_hasRewards node i path ⟨members, rfl, hrewards, rfl⟩⟩

/-- A tree that holds nothing that could be looked through is malformed. -/
theorem holds_or_malformed (node : Text) (i : Int) (path : Text) (tree : Json) :
    (∃ entry, Holds node tree entry) ∨ ∃ f, parseTree node i path tree = .error f ∧ f.isMalformed = true := by
  cases tree with
  | object members =>
    cases hrewards : (Table.get? members "nodeRewards").getD (.object []) with
    | object entries => exact Or.inl ⟨_, members, entries, rfl, hrewards, rfl⟩
    | _ =>
      refine Or.inr ⟨.noMembers, ?_, rfl⟩
      rw [parseTree_object, hrewards]
      rfl
  | _ => exact Or.inr ⟨.noMembers, rfl, rfl⟩

variable {fields : List (Text × Json)}

theorem readEntry_fields (i : Int) (path : Text) (root : Json) (fields : List (Text × Json)) :
    readEntry i path root (some (.object fields)) = (do
      let collateralRpl ← (amountIn fields "collateralRpl").toInt
      let oracleDaoRpl ← (amountIn fields "oracleDaoRpl").toInt
      let smoothingPoolEth ← (amountIn fields "smoothingPoolEth").toInt
      let merkleProof ← (proofIn fields).elements
      return { index := i, path, found := true, listed := true, collateralRpl, oracleDaoRpl, smoothingPoolEth,
               merkleRoot := root, merkleProof }) := rfl

theorem parseTree_of_legible (i : Int) (path : Text) (h : Legible node tree) :
    ∃ info, parseTree node i path tree = .ok info ∧ info.found = true := by
  rcases h with h | ⟨fields, h, hamounts, items, hitems⟩
  · obtain ⟨root, hparse⟩ := parseTree_of_holds i path h
    exact ⟨_, hparse, rfl⟩
  · obtain ⟨root, hparse⟩ := parseTree_of_holds i path h
    simp only [amountsIn, List.forall_mem_cons] at hamounts
    obtain ⟨⟨rpl, hrpl⟩, ⟨dao, hdao⟩, ⟨eth, heth⟩, -⟩ := hamounts
    rw [readEntry_fields, hrpl, hdao, heth, hitems] at hparse
    exact ⟨_, hparse, rfl⟩

theorem parseTree_of_overflows (i : Int) (path : Text) (h : Overflows node tree) :
    parseTree node i path tree = .error .infinite := by
  obtain ⟨fields, h, hamounts⟩ := h
  obtain ⟨root, hparse⟩ := parseTree_of_holds i path h
  simp only [amountsIn, InfiniteFirst, ← Json.toInt_infinite_iff] at hamounts
  rw [hparse, readEntry_fields]
  rcases hamounts with hrpl | ⟨⟨rpl, hrpl⟩, hdao | ⟨⟨dao, hdao⟩, heth | ⟨-, hnone⟩⟩⟩
  · rw [hrpl]
    rfl
  · rw [hrpl, hdao]
    rfl
  · rw [hrpl, hdao, heth]
    rfl
  · exact hnone.elim

/-- Each reading that is not there is malformed, or it is infinite behind integers. -/
theorem readEntry_of_neither (i : Int) (path : Text) (root : Json)
    (hlist : ¬ ((∀ j ∈ amountsIn fields, ∃ n, j.toInt = .ok n) ∧ ∃ items, (proofIn fields).elements = .ok items))
    (hfinite : ¬ InfiniteFirst (amountsIn fields)) :
    ∃ f, readEntry i path root (some (.object fields)) = .error f ∧ f.isMalformed = true := by
  rw [readEntry_fields]
  simp only [amountsIn, InfiniteFirst, List.forall_mem_cons] at hlist hfinite
  rcases (amountIn fields "collateralRpl").toInt_cases with ⟨⟨rpl, hrpl⟩, -⟩ | ⟨-, hi⟩ | ⟨f, hf, hm, -⟩
  · rw [hrpl] at hlist hfinite ⊢
    rcases (amountIn fields "oracleDaoRpl").toInt_cases with ⟨⟨dao, hdao⟩, -⟩ | ⟨-, hi⟩ | ⟨f, hf, hm, -⟩
    · rw [hdao] at hlist hfinite ⊢
      rcases (amountIn fields "smoothingPoolEth").toInt_cases with ⟨⟨eth, heth⟩, -⟩ | ⟨-, hi⟩ | ⟨f, hf, hm, -⟩
      · rw [heth] at hlist ⊢
        cases hproof : (proofIn fields).elements with
        | error f => exact ⟨f, rfl, Json.isMalformed_of_elements hproof⟩
        | ok items => simp [hproof] at hlist
      · simp [hi] at hfinite
      · rw [hf]
        exact ⟨f, rfl, hm⟩
    · simp [hi] at hfinite
    · rw [hf]
      exact ⟨f, rfl, hm⟩
  · simp [hi] at hfinite
  · rw [hf]
    exact ⟨f, rfl, hm⟩

theorem parseTree_of_neither (i : Int) (path : Text) (hlegible : ¬ Legible node tree) (hfinite : ¬ Overflows node tree) :
    ∃ f, parseTree node i path tree = .error f ∧ f.isMalformed = true := by
  rcases holds_or_malformed node i path tree with ⟨entry, h⟩ | hf
  · obtain ⟨root, hparse⟩ := parseTree_of_holds i path h
    rw [hparse]
    cases entry with
    | none => exact absurd (Or.inl h) hlegible
    | some entry =>
      cases entry with
      | object fields =>
        exact readEntry_of_neither i path root (fun hl => hlegible (Or.inr ⟨fields, h, hl⟩))
          fun hi => hfinite ⟨fields, h, hi⟩
      | _ => exact ⟨.noMembers, rfl, rfl⟩
  · exact hf

/-! ## What comes of a file -/

/-- The file holds a document. -/
def Reads (answer : Except FileFault Bytes) (tree : Json) : Prop :=
  ∃ bytes, answer = .ok bytes ∧ Json.ofBytes bytes = .ok tree

theorem Reads.tree_eq {answer : Except FileFault Bytes} {tree' : Json} (h : Reads answer tree) (h' : Reads answer tree') :
    tree = tree' := by
  obtain ⟨bytes, rfl, hbytes⟩ := h
  obtain ⟨_, heq, hbytes'⟩ := h'
  cases heq
  exact Except.ok.inj (hbytes.symm.trans hbytes')

/-- The endings of a look at a tree file, by what the file system answered. -/
inductive Comes (node : Text) (i : Int) (path : Text) (answer : Except FileFault Bytes) :
    Except Fault IntervalInfo → Prop where
  | missing (h : answer = .error .missing) : Comes node i path answer (.ok { index := i, path, found := false })
  | told {tree : Json} {info : IntervalInfo} (h : Reads answer tree) (hl : Legible node tree)
    (hi : info.found = true) : Comes node i path answer (.ok info)
  | overflow {tree : Json} (h : Reads answer tree) (ho : Overflows node tree) :
    Comes node i path answer (.error .infinite)
  | unread {f : Fault} (hm : answer ≠ .error .missing)
    (ht : ∀ tree, Reads answer tree → ¬ Legible node tree ∧ ¬ Overflows node tree) (hf : f.OfTree path i) :
    Comes node i path answer (.error f)

theorem intervalOf_comes (node : Text) (i : Int) (path : Text) (answer : Except FileFault Bytes) :
    Comes node i path answer (intervalOf node i path answer) := by
  cases answer with
  | error f =>
    have hnone : ∀ tree, Reads (.error f) tree → ¬ Legible node tree ∧ ¬ Overflows node tree := by
      intro tree h
      obtain ⟨_, hbytes, -⟩ := h
      cases hbytes
    cases f with
    | missing => exact .missing rfl
    | _ => exact .unread (by simp) hnone (show _ ∧ _ from ⟨rfl, rfl⟩)
  | ok bytes =>
    have hread : ∀ {tree}, Json.ofBytes bytes = .ok tree → Reads (.ok bytes) tree := fun h => ⟨bytes, rfl, h⟩
    cases hdoc : Json.ofBytes bytes with
    | error f =>
      have hf : intervalOf node i path (.ok bytes) = .error (.treeUnreadable path i f) := by simp [intervalOf, hdoc]
      rw [hf]
      refine .unread (by simp) (fun tree h => ?_) (show _ ∧ _ from ⟨rfl, rfl⟩)
      obtain ⟨_, hbytes, htree⟩ := h
      cases hbytes
      cases hdoc.symm.trans htree
    | ok tree =>
      have hok : ∀ {info}, parseTree node i path tree = .ok info → intervalOf node i path (.ok bytes) = .ok info := by
        intro info h
        simp [intervalOf, hdoc, h]
      have herror : ∀ {f}, parseTree node i path tree = .error f →
          intervalOf node i path (.ok bytes) = .error (if f.isMalformed then .treeMalformed path i f else f) := by
        intro f h
        simp [intervalOf, hdoc, h]
      by_cases hl : Legible node tree
      · obtain ⟨info, hinfo, hfound⟩ := parseTree_of_legible i path hl
        rw [hok hinfo]
        exact .told (hread hdoc) hl hfound
      · by_cases ho : Overflows node tree
        · rw [herror (parseTree_of_overflows i path ho)]
          exact .overflow (hread hdoc) ho
        · obtain ⟨f, hf, hmalformed⟩ := parseTree_of_neither i path hl ho
          rw [herror hf, if_pos hmalformed]
          refine .unread (by simp) (fun tree' h => ?_) (show _ ∧ _ from ⟨rfl, rfl⟩)
          cases (hread hdoc).tree_eq h
          exact ⟨hl, ho⟩

theorem not_legible_of_overflows (h : Overflows node tree) : ¬ Legible node tree := by
  intro hl
  obtain ⟨info, hinfo, -⟩ := parseTree_of_legible 0 Text.empty hl
  cases hinfo.symm.trans (parseTree_of_overflows 0 Text.empty h)

/-- A tree file that is not there is told as such, and one that can be understood is read.
    Whatever else the file system answers is a fault that names the file and the interval,
    but for one document: where the first amount of the node that has no integer is infinite,
    the fault is that of the number and names neither. -/
theorem intervalOf_classified (node : Text) (i : Int) (path : Text) (answer : Except FileFault Bytes) :
    ((∃ info, intervalOf node i path answer = .ok info ∧ info.found = false) ↔ answer = .error .missing) ∧
    ((∃ info, intervalOf node i path answer = .ok info ∧ info.found = true) ↔
      ∃ tree, Reads answer tree ∧ Legible node tree) ∧
    (intervalOf node i path answer = .error .infinite ↔ ∃ tree, Reads answer tree ∧ Overflows node tree) ∧
    ∀ f, intervalOf node i path answer = .error f → f.OfTree path i ∨ f = .infinite := by
  have hnot_reads : answer = .error .missing → ∀ tree, ¬ Reads answer tree := by
    rintro rfl tree ⟨_, hbytes, -⟩
    cases hbytes
  have hcomes := intervalOf_comes node i path answer
  generalize intervalOf node i path answer = x at hcomes ⊢
  cases hcomes with
  | missing h =>
    subst h
    simp [hnot_reads rfl]
  | told h hl hi =>
    have hm : answer ≠ .error .missing := fun hm => hnot_reads hm _ h
    have ho : ∀ tree, Reads answer tree → ¬ Overflows node tree := by
      intro tree htree ho
      exact not_legible_of_overflows ho (h.tree_eq htree ▸ hl)
    simpa [hm, hi] using ⟨⟨_, h, hl⟩, ho⟩
  | overflow h ho =>
    have hm : answer ≠ .error .missing := fun hm => hnot_reads hm _ h
    have hl : ∀ tree, Reads answer tree → ¬ Legible node tree := by
      intro tree htree
      exact not_legible_of_overflows (h.tree_eq htree ▸ ho)
    simpa [hm] using ⟨hl, _, h, ho⟩
  | unread hm ht hf =>
    have hinfinite : _ ≠ Fault.infinite := hf.ne_infinite
    simpa [hm, hf, hinfinite] using ⟨fun tree h => (ht tree h).1, fun tree h => (ht tree h).2⟩

/-- A tree whose only amount for the node is written `Infinity`. -/
def infiniteTree : Bytes :=
  Text.toUtf8 ("\x7b\"nodeRewards\": \x7b\"0x1111111111111111111111111111111111111111\": " ++
    "\x7b\"collateralRpl\": Infinity\x7d\x7d\x7d")

/-- So a file that is there and cannot be understood need not be told as such. -/
theorem infinite_amount_escapes :
    ∃ f, intervalOf "0x1111111111111111111111111111111111111111" 0 "trees/rp-rewards-mainnet-0.json" (.ok infiniteTree) =
        .error f ∧ ¬ f.OfTree "trees/rp-rewards-mainnet-0.json" 0 := by
  refine ⟨.infinite, ?_, id⟩
  rw [← except_map_error (f := fun _ => ())]
  decide +kernel

end Rewards

end NodeGauge
