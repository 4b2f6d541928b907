/-
  NodeGauge.Settings — what can be set for the exporter, with defaults, and how the
  settings are read from the environment.
-/

import NodeGauge.Network

namespace NodeGauge

structure Settings where
  logLevel : Text := "INFO"
  networkName : Text := "mainnet"
  network : Network := Network.mainnet
  nodeAddress : Text := ""
  port : Int := 9102
  host : Text := "127.0.0.1"
  treesDir : Text := "./rewards-trees"
  snapshotPath : Text := "./network-state.json"
  refreshInterval : Int := 60
  executionTimeout : Int := 30
  beaconTimeout : Int := 10
  /-- Seconds for which a request to the beacon node is repeated. -/
  maxRetryTime : Int := 20
  batchSize : Int := 20
  sentryDsn : Text := ""
  deriving DecidableEq, Repr

namespace Settings

/-- The ETH an active minipool is bonded with. -/
def bondSize : Double := 16

abbrev Environment := Table Text Text

def textIn (env : Environment) (name default : Text) : Text := (env.get? name).getD default

def integerIn (env : Environment) (name : Text) (default : Int) : Except Fault Int :=
  match env.get? name with
  | none => .ok default
  | some t => match Json.integerOfText? t with
    | some n => .ok n
    | none => .error (.badSetting name)

def addressIn (env : Environment) (name : Text) (default : Address) : Except Fault Address :=
  match env.get? name with
  | none => .ok default
  | some t => match Address.ofText? t with
    | some a => .ok a
    | none => .error (.badSetting name)

def networkIn (env : Environment) (n : Network) : Except Fault Network := do
  let storage ← addressIn env "ROCKET_STORAGE_CONTRACT_ADDRESS" n.storage
  return { n with
    storage
    executionEndpoint := textIn env "ETH1_ENDPOINT" n.executionEndpoint
    beaconEndpoint := textIn env "ETH2_ENDPOINT" n.beaconEndpoint }

/-- The settings of an environment. The name of the network may be in any case. -/
def ofEnvironment (env : Environment) : Except Fault Settings := do
  let mainnet ← networkIn env Network.mainnet
  let holesky ← networkIn env Network.holesky
  let networkName := (textIn env "NETWORK" "mainnet").lower
  let network ←
    if networkName = "mainnet" then .ok mainnet
    else if networkName = "holesky" then .ok holesky
    else .error (.badSetting "NETWORK")
  let port ← integerIn env "METRICS_SERVER_PORT" 9102
  let refreshInterval ← integerIn env "STATE_REFRESH_INTERVAL" 60
  let executionTimeout ← integerIn env "ETH1_REQUEST_TIMEOUT" 30
  let beaconTimeout ← integerIn env "ETH2_REQUEST_TIMEOUT" 10
  let maxRetryTime ← integerIn env "ETH2_MAX_RETRY_TIME" 20
  let batchSize ← integerIn env "MINIPOOL_BALANCES_BATCH_SIZE" 20
  return {
    logLevel := textIn env "LOG_LEVEL" "INFO"
    networkName, network
    nodeAddress := textIn env "NODE_ADDRESS" ""
    port
    host := textIn env "METRICS_SERVER_HOST" "127.0.0.1"
    treesDir := textIn env "REWARDS_TREES_DIR" "./rewards-trees"
    snapshotPath := textIn env "STATE_SNAPSHOT_PATH" "./network-state.json"
    refreshInterval, executionTimeout, beaconTimeout, maxRetryTime, batchSize
    sentryDsn := textIn env "SENTRY_DSN" "" }

end Settings

end NodeGauge
