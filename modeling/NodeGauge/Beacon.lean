/-
  NodeGauge.Beacon — what the beacon node is asked and how its answers are read: an
  answer's data, which failures pass by themselves, how long to wait for that, and the
  head of the beacon chain in two answers.
-/

import NodeGauge.Json

namespace NodeGauge.Beacon

inductive Endpoint where
  | header
  | checkpoints
  deriving DecidableEq, Repr

def Endpoint.path : Endpoint → Text
  | header => "/eth/v1/beacon/headers/head"
  | checkpoints => "/eth/v1/beacon/states/head/finality_checkpoints"

inductive Response where
  | outage (o : Outage)
  /-- An answer, with what reading its body gave. -/
  | http (status : Int) (body : Except Fault Json)
  deriving Inhabited

namespace Response

def read : Response → Except Fault Json
  | outage o => .error (.outage o)
  | http status body =>
    if 400 ≤ status then .error (.httpStatus status)
    else match body with
      | .error f => .error f
      | .ok j => j.member "data"

/-- A failure that may be over by the next request: no connection, one cut off, or a fault
    of the server. -/
def isTransient : Response → Bool
  | outage .contentType | outage .system => false
  | outage _ => true
  | http status _ => 500 ≤ status

end Response

/-! ## Waiting -/

/-- The waits between attempts when `left` seconds are left: 2^k and its doubles, the last
    one cut to the time left. -/
def waitsFrom (k left : Nat) : List Nat :=
  match left with
  | 0 => []
  | rest + 1 =>
    let wait := min (1 <<< k) (rest + 1)
    wait :: waitsFrom (k + 1) (rest + 1 - wait)
termination_by left
decreasing_by
  have : 0 < 1 <<< k := by rw [Nat.one_shiftLeft]; exact Nat.two_pow_pos k
  omega

def waits (maxTime : Int) : List Nat := waitsFrom 0 maxTime.toNat

/-! ## The head -/

structure Head where
  epoch : Int
  slot : Int
  finalizedEpoch : Int
  justifiedEpoch : Int
  previousJustifiedEpoch : Int
  deriving DecidableEq, Repr

def integerAt (path : List String) (j : Json) : Except Fault Int := do
  (← path.foldlM (fun v key => v.member key) j).toInt

def Head.parse (slotsPerEpoch : Nat) (header checkpoints : Json) : Except Fault Head := do
  let slot ← integerAt ["header", "message", "slot"] header
  let finalizedEpoch ← integerAt ["finalized", "epoch"] checkpoints
  let justifiedEpoch ← integerAt ["current_justified", "epoch"] checkpoints
  let previousJustifiedEpoch ← integerAt ["previous_justified", "epoch"] checkpoints
  return { epoch := slot.fdiv slotsPerEpoch, slot, finalizedEpoch, justifiedEpoch, previousJustifiedEpoch }

/-- The fault of the head's lookup, from the fault of one of its parts. A failure of the
    operating system and an infinite number stay what they are. -/
def headFault : Fault → Fault
  | .outage .system => .outage .system
  | .outage o => .headUnavailable (.outage o)
  | .httpStatus code => .headUnavailable (.httpStatus code)
  | f => if f.isMalformed then .headMalformed f else f

end NodeGauge.Beacon
