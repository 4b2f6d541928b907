/-
  NodeGauge.Rewards.Tree — the rewards tree of an interval: where its file lies and what
  it holds for a node. A node is looked up by its address in lower case; of the keys that
  name it the last one counts.
-/

import NodeGauge.Json.Reader
import NodeGauge.Wei

namespace NodeGauge.Rewards

structure IntervalInfo where
  index : Int
  path : Text
  found : Bool
  listed : Bool := false
  collateralRpl : Wei := 0
  oracleDaoRpl : Wei := 0
  smoothingPoolEth : Wei := 0
  merkleRoot : Json := .null
  merkleProof : List Json := []
  deriving Inhabited

def treePath (network dir : Text) (interval : Int) : Text :=
  let file : Text := "rp-rewards-" ++ network ++ "-" ++ Text.ofInt interval ++ ".json"
  if dir.isEmpty ∨ dir.endsWith "/" then dir ++ file else dir ++ "/" ++ file

/-- The value of the last key that names the node; null is as good as no key. -/
def entryOf (node : Text) (entries : List (Text × Json)) : Option Json :=
  match entries.reverse.find? fun e => e.1.lower == node.lower with
  | some (_, .null) => none
  | some (_, entry) => some entry
  | none => none

section Parser

variable (read : Json → Except Fault Int)

def amount (entry : Json) (key : Text) : Except Fault Wei := do read (← entry.memberD key (.int 0))

def infoOf (interval : Int) (path : Text) (tree : Json) : Option Json → Except Fault IntervalInfo
  | none => do
    return { index := interval, path, found := true, merkleRoot := ← tree.memberD "merkleRoot" .null }
  | some entry => do
    let collateralRpl ← amount read entry "collateralRpl"
    let oracleDaoRpl ← amount read entry "oracleDaoRpl"
    let smoothingPoolEth ← amount read entry "smoothingPoolEth"
    let merkleRoot ← tree.memberD "merkleRoot" .null
    let merkleProof ← (← entry.memberD "merkleProof" (.list [])).elements
    return { index := interval, path, found := true, listed := true, collateralRpl, oracleDaoRpl, smoothingPoolEth,
             merkleRoot, merkleProof }

/-- What a tree that was read says about the node, under a way to read an integer. -/
def parseTreeBy (node : Text) (interval : Int) (path : Text) (tree : Json) : Except Fault IntervalInfo := do
  let entries ← (← tree.memberD "nodeRewards" (.object [])).entries
  infoOf read interval path tree (entryOf node entries)

end Parser

def parseTree : Text → Int → Text → Json → Except Fault IntervalInfo := parseTreeBy Json.toInt

/-- What a tree file says about the node, from what reading it gave. That there is no
    file is an answer too; a file that cannot be read or understood is a fault that tells
    so, and an infinite amount stays the fault it is. -/
def intervalOf (node : Text) (interval : Int) (path : Text) : Except FileFault Bytes → Except Fault IntervalInfo
  | .error .missing => .ok { index := interval, path, found := false }
  | .error f => .error (.treeUnreadable path interval (.file f))
  | .ok bytes => match Json.ofBytes bytes with
    | .error f => .error (.treeUnreadable path interval f)
    | .ok tree => match parseTree node interval path tree with
      | .ok info => .ok info
      | .error f => .error (if f.isMalformed then .treeMalformed path interval f else f)

end NodeGauge.Rewards
