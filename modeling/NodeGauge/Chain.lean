/-
  NodeGauge.Chain — what the exporter asks of the execution node, as data: the calls with
  their bytes, and the chain as the function that answers them. Answers are words of 32
  bytes; what follows the first word does not count.
-/

import NodeGauge.Chain.StorageKey
import NodeGauge.Wei

namespace NodeGauge.Chain

inductive BlockTag where
  | latest
  | number (n : Nat)
  deriving DecidableEq, Repr

inductive Call where
  | latestBlock
  | read (contract : Address) (data : Bytes) (block : BlockTag)
  deriving DecidableEq, Repr

end Chain

/-- The chain at one time: an answer, or the message of a failure, for each call. -/
structure Chain where
  latestBlock : Except Text Int
  read : Address → Bytes → Chain.BlockTag → Except Text Bytes

namespace Chain

/-! ## Words -/

def word (n : Nat) : Bytes := Hex.pairs (Hex.digits 64 n)

def number (bs : Bytes) : Nat := bs.foldl (fun n b => 256 * n + b.toNat) 0

def decodeNumber (bs : Bytes) : Except Fault Nat :=
  if bs.length < 32 then .error .badAnswer else .ok (number (bs.take 32))

/-- The address of the first word: its last 20 bytes, the first 12 being zero. -/
def decodeAddress (bs : Bytes) : Except Fault Address :=
  if bs.length < 32 ∨ number (bs.take 12) ≠ 0 then .error .badAnswer
  else .ok (Address.ofNat (number (bs.take 32)))

/-! ## Calls -/

def getAddress (key : Bytes) : Bytes := [0x21, 0xf8, 0xa7, 0x21] ++ key

def getUint (key : Bytes) : Bytes := [0xbd, 0x02, 0xd0, 0xf5] ++ key

def getRewardIndex : Bytes := [0xf2, 0x1c, 0x15, 0x0c]

def calculateNodeShare (balance : Nat) : Bytes := [0x1a, 0x69, 0xd1, 0x8f] ++ word balance

end NodeGauge.Chain
