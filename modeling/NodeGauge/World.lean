/-
  NodeGauge.World — what answers a job: the world outside, which is given; the exporter's
  own memory, which asks change; the history of all exchanges, and the log. What a job did
  can be read off the history: its calls, requests and reads.
-/

import NodeGauge.Ask

namespace NodeGauge

structure Outside where
  chain : Chain
  /-- The beacon node's answer to the n-th request of a lookup, counted from 0. -/
  beacon : Beacon.Endpoint → Nat → Beacon.Response
  files : Text → Except FileFault Bytes

structure Memory where
  snapshot : Option Snapshot := none
  total : Option Wei := none
  ledger : Rewards.Ledger := Rewards.Ledger.empty
  rewardsPool : Option Address := none
  shown : Option Metrics := none
  exiting : Bool := false
  held : List Lock := []

structure World where
  outside : Outside
  memory : Memory := {}
  /-- The exchanges so far, the latest first. -/
  history : List Exchange := []
  /-- The lines of the log, the latest first. -/
  log : List Note := []

namespace World

/-! ## What the history and the log tell -/

def calls (w : World) : List Chain.Call :=
  w.history.reverse.filterMap fun x => match x.ask with
    | .call c => some c
    | _ => none

def notes (w : World) : List Note := w.log.reverse

def reads (w : World) : List Text :=
  w.history.reverse.filterMap fun x => match x.ask with
    | .file path => some path
    | _ => none

def isGet (e : Beacon.Endpoint) : Ask → Bool
  | .get d => d == e
  | _ => false

def gets (w : World) (e : Beacon.Endpoint) : Nat := w.history.countP fun x => isGet e x.ask

end World

namespace Ask

def reply (w : World) : (q : Ask) → q.Reply
  | .call .latestBlock => w.outside.chain.latestBlock
  | .call (.read contract data block) => w.outside.chain.read contract data block
  | .file path => w.outside.files path
  | .get e => w.outside.beacon e (w.gets e)
  | .snapshot => w.memory.snapshot
  | .total => w.memory.total
  | .ledger => w.memory.ledger
  | .commit infos block => (w.memory.ledger.commit infos block).2
  | .rewardsPool => w.memory.rewardsPool
  | .shown => w.memory.shown
  | .exiting => w.memory.exiting
  | .wait _ | .note _ | .openSession _ | .closeSession | .listen .. | .pause _ | .install .. | .keepRewardsPool _
  | .display _ | .exit | .acquire _ | .release _ => ()

def effect (m : Memory) : Ask → Memory
  | .install s t => { m with snapshot := some s, total := t }
  | .commit infos block => { m with ledger := (m.ledger.commit infos block).1 }
  | .keepRewardsPool a => { m with rewardsPool := some a }
  | .display metrics => { m with shown := metrics }
  | .exit => { m with exiting := true }
  | .acquire l => { m with held := l :: m.held }
  | .release l => { m with held := m.held.erase l }
  | _ => m

/-- The line that an ask writes to the log; a commit writes the ledger's. -/
def line? (m : Memory) : Ask → Option Note
  | .note n => some n
  | .commit infos block => m.ledger.line? infos block
  | _ => none

/-- Can the ask be answered now? A lock is given only when nobody holds it. -/
def ready (m : Memory) : Ask → Bool
  | .acquire l => !m.held.contains l
  | _ => true

end Ask

def World.after (w : World) (q : Ask) : World :=
  { w with
    memory := q.effect w.memory
    history := ⟨q, q.reply w⟩ :: w.history
    log := (q.line? w.memory).toList ++ w.log }

end NodeGauge
