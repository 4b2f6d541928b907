/-
  NodeGauge.Ask — what a running job can ask for, one operation at a time: a call to the
  execution node, a file, a request to the beacon node, a look at the exporter's memory or
  a change of it. Each ask is one step that nothing comes between; all that a job does
  between two asks is computing. An ask with the reply it got is an `Exchange`.
-/

import NodeGauge.Beacon
import NodeGauge.Chain
import NodeGauge.Metrics
import NodeGauge.Note
import NodeGauge.Rewards.Ledger
import NodeGauge.Snapshot

namespace NodeGauge

inductive Lock where
  /-- A collection cycle, and with it the ledger. -/
  | cycle
  /-- The metrics on show. -/
  | scrape
  deriving DecidableEq, Repr

inductive Ask where
  | call (c : Chain.Call)
  | file (path : Text)
  | get (e : Beacon.Endpoint)
  /-- The wait before a request is repeated. -/
  | wait (seconds : Nat)
  | note (n : Note)
  | openSession (timeout : Int)
  | closeSession
  | listen (host : Text) (port : Int)
  | pause (seconds : Int)
  /-- The snapshot installed last, and on its own the total that came with it. -/
  | snapshot
  | total
  | install (s : Snapshot) (total : Option Wei)
  | ledger
  | commit (infos : List Rewards.IntervalInfo) (block : Int)
  | rewardsPool
  | keepRewardsPool (a : Address)
  | shown
  | display (m : Option Metrics)
  | exiting
  | exit
  | acquire (l : Lock)
  | release (l : Lock)

@[reducible] def Ask.Reply : Ask → Type
  | .call .latestBlock => Except Text Int
  | .call (.read ..) => Except Text Bytes
  | .file _ => Except FileFault Bytes
  | .get _ => Beacon.Response
  | .snapshot => Option Snapshot
  | .total => Option Wei
  | .ledger => Rewards.Ledger
  | .commit .. => Except Fault Unit
  | .rewardsPool => Option Address
  | .shown => Option Metrics
  | .exiting => Bool
  | .wait _ | .note _ | .openSession _ | .closeSession | .listen .. | .pause _ | .install .. | .keepRewardsPool _
  | .display _ | .exit | .acquire _ | .release _ => Unit

structure Exchange where
  ask : Ask
  reply : ask.Reply

end NodeGauge
