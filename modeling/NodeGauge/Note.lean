/-
  NodeGauge.Note — the lines of the exporter's log, as data; level and wording in one
  place.
-/

import NodeGauge.Double.Decimal
import NodeGauge.Fault

namespace NodeGauge

inductive Level where
  | info
  | warning
  | error
  deriving DecidableEq, Repr

inductive Note where
  | cycleFailed (f : Fault)
  | balancesFailed (f : Fault)
  /-- Intervals that the ledger folded in, and its totals behind that. -/
  | folded (intervals : List Int) (rpl eth : Double)
  | snapshotMissing (path : Text)
  | refreshFailed (f : Fault)
  | httpEndpoint (url : Text)
  | ipcEndpoint (path : Text)
  | poaInjected
  | checkingExecution
  | executionConnected (block : Int)
  | checkingBeacon
  | beaconConnected (epoch : Int)
  | serving (host : Text) (port : Int)
  | collecting (network node : Text)
  | interrupted (signal : Int)
  deriving DecidableEq, Repr

namespace Note

def level : Note → Level
  | cycleFailed _ | balancesFailed _ | refreshFailed _ => .error
  | httpEndpoint _ | ipcEndpoint _ | poaInjected => .warning
  | _ => .info

def listText (ns : List Int) : Text := "[" ++ Text.concat ((ns.map Text.ofInt).intersperse ", ") ++ "]"

/-- A number with the fewest digits that read back, positional below 10^16. -/
def numberText : Double → Text := Double.text (fun _ => 16) (fun neg => if neg then "-inf" else "inf") "nan"

/-- The line; `name` names a cause without wording of its own. -/
def text (name : Fault → Text) : Note → Text
  | cycleFailed f => "Error collecting node metrics: " ++ f.text name
  | balancesFailed f => "Error getting minipool beacon balances: " ++ f.text name
  | folded intervals rpl eth =>
    "Folded claimed intervals " ++ listText intervals ++ " into cumulative rewards: rpl=" ++ numberText rpl ++
      ", eth=" ++ numberText eth
  | snapshotMissing path => "Network state snapshot " ++ path ++ " is not available yet"
  | refreshFailed f => f.text name
  | httpEndpoint url => "Web3 HTTP endpoint=" ++ url
  | ipcEndpoint path => "Web3 IPC endpoint=" ++ path
  | poaInjected => "Injected POA middleware"
  | checkingExecution => "Checking connection to ETH1 node..."
  | executionConnected block => "Connected to ETH1 node. Current block number: " ++ Text.ofInt block
  | checkingBeacon => "Checking connection to ETH2 node..."
  | beaconConnected epoch => "Connected to ETH2 node. Current epoch: " ++ Text.ofInt epoch
  | serving host port => "Started metrics server at http://" ++ host ++ ":" ++ Text.ofInt port ++ "/metrics"
  | collecting network node => "Collecting " ++ network ++ " metrics for node " ++ node
  | interrupted signal => "Received interrupt signal " ++ Text.ofInt signal ++ ", exiting..."

end Note

end NodeGauge
