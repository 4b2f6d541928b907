/-
  NodeGauge.Daemon — the life of the exporter: it starts once both nodes have answered,
  looks for a new snapshot in every round until it is interrupted, and closes down. A
  refresh that fails is noted and the rounds go on.
-/

import NodeGauge.Chain.Provider
import NodeGauge.Service
import NodeGauge.Snapshot.Refresh

namespace NodeGauge.Daemon

open Job (send note)

variable (cfg : Settings)

/-- The node the metrics are collected for. -/
def nodeAddress : Except Fault Address :=
  if cfg.nodeAddress.isEmpty then .error .noNodeAddress
  else match Address.ofText? cfg.nodeAddress with
    | some a => .ok a
    | none => .error .notAddress

/-- Asks both nodes once. -/
def checkNodes : Job Unit := do
  note .checkingExecution
  note (.executionConnected (← Chain.Client.latestBlock))
  note .checkingBeacon
  note (.beaconConnected (← Beacon.head cfg).epoch)

def start : Job Address := do
  let node ← nodeAddress cfg
  send (.openSession cfg.beaconTimeout)
  let _ ← Chain.Provider.choose cfg.network
  checkNodes cfg
  send (.listen cfg.host cfg.port)
  note (.serving cfg.host cfg.port)
  note (.collecting cfg.networkName node.text)
  return node

/-- One look for a new snapshot and the pause after it, unless an interrupt has come;
    whether there was one. -/
def round : Job Bool := do
  if ← send .exiting then return false
  match ← (Snapshot.refresh cfg.snapshotPath).attempt with
  | .ok _ => pure ()
  | .error f => note (.refreshFailed f)
  send (.pause cfg.refreshInterval)
  return true

def interrupt (signal : Int) : Job Unit := do
  note (.interrupted signal)
  send .exit

def stop : Job Unit := send .closeSession

end NodeGauge.Daemon
