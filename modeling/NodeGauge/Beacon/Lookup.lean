/-
  NodeGauge.Beacon.Lookup — the jobs that ask the beacon node: a request that is repeated
  while its failure may pass, and the head of the chain from two of them side by side.
-/

import NodeGauge.Job
import NodeGauge.Settings

namespace NodeGauge.Beacon

open Job (send)

/-- The data of a lookup. A failure that may pass is met by the next wait and another
    request; without a wait left the last response counts. -/
def fetch (e : Endpoint) : (waits : List Nat) → Job Json
  | [] => do (← send (.get e)).read
  | w :: waits => do
    let r ← send (.get e)
    if r.isTransient then
      send (.wait w)
      fetch e waits
    else r.read

/-- The head of the beacon chain. The first fault of one of its two requests ends the
    lookup; the other request runs on. -/
def head (cfg : Settings) : Job Head := do
  let ws := waits cfg.maxRetryTime
  match ← (Job.together (fetch .header ws) (fetch .checkpoints ws)).attempt with
  | .ok (header, checkpoints) => match Head.parse cfg.network.slotsPerEpoch header checkpoints with
    | .ok h => return h
    | .error f => .fail (headFault f)
  | .error f => .fail (headFault f)

end NodeGauge.Beacon
