/-
  NodeGauge.Exposition — the metrics as families of samples and as the text a scraper
  reads: for each family a HELP line, a TYPE line and a line for each sample. Every field
  of the metrics has one sample; the balances share a family and are told apart by the
  token in their label. The texts of numbers are the library's that writes the text, and
  are given with it (`Format`).
-/

import NodeGauge.Metrics
import NodeGauge.Text

namespace NodeGauge.Exposition

structure Sample where
  name : Text
  /-- Label names with their values, which hold no quote, backslash or line end. -/
  labels : List (Text × Text)
  value : Double
  deriving DecidableEq, Repr

/-- The samples of one metric; every metric is a gauge. -/
structure Family where
  name : Text
  help : Text
  samples : List Sample
  deriving DecidableEq, Repr

/-! ## The metrics of a node -/

structure Gauge where
  name : Text
  help : Text
  value : Metrics → Double

def gauges : List Gauge := [
  ⟨"total_staked_rpl", "The total amount of RPL staked on the node", (·.totalStakedRpl)⟩,
  ⟨"effective_staked_rpl", "The effective amount of RPL staked on the node (honoring the 150% collateral cap)",
    (·.effectiveStakedRpl)⟩,
  ⟨"rpl_collateral", "The RPL collateral level for the node", (·.rplCollateral)⟩,
  ⟨"cumulative_rpl_rewards", "The cumulative RPL rewards earned by the node", (·.cumulativeRplRewards)⟩,
  ⟨"expected_rpl_rewards", "The expected RPL rewards for the node at the next rewards checkpoint",
    (·.expectedRplRewards)⟩,
  ⟨"rpl_apr", "The estimated APR of RPL for the node from the next rewards checkpoint", (·.rplApr)⟩,
  ⟨"active_minipool_count", "The number of active minipools owned by the node", (·.activeMinipoolCount)⟩,
  ⟨"deposited_eth", "The amount of ETH this node deposited into minipools", (·.depositedEth)⟩,
  ⟨"beacon_share", "The node's total share of its minipool's beacon chain balances", (·.beaconShare)⟩,
  ⟨"beacon_balance", "The total balances of all this node's validators on the beacon chain", (·.beaconBalance)⟩,
  ⟨"unclaimed_rewards", "The RPL rewards from the last period that have not been claimed yet",
    (·.unclaimedRplRewards)⟩,
  ⟨"claimed_eth_rewards", "The claimed ETH rewards from the smoothing pool", (·.claimedEthRewards)⟩,
  ⟨"unclaimed_eth_rewards", "The unclaimed ETH rewards from the smoothing pool", (·.unclaimedEthRewards)⟩,
  ⟨"total_eth_rewards_skimmed", "The total ETH rewards skimmed balance", (·.totalEthRewardsSkimmed)⟩,
  ⟨"total_eth_rewards_share_skimmed", "The total ETH rewards share of the skimmed balance",
    (·.totalEthRewardsShareSkimmed)⟩,
  ⟨"total_refund_eth_skimmed", "The total refund ETH skimmed balance", (·.totalRefundEthSkimmed)⟩]

def balances : List (Text × (Metrics → Double)) := [
  ("ETH", (·.ethBalance)), ("Legacy RPL", (·.oldRplBalance)), ("New RPL", (·.newRplBalance)),
  ("rETH", (·.rethBalance))]

def metricName (name : Text) : Text := "rocketpool_node_" ++ name

def Gauge.family (g : Gauge) (m : Metrics) : Family :=
  ⟨metricName g.name, g.help, [⟨metricName g.name, [], g.value m⟩]⟩

def balanceFamily (samples : List Sample) : Family :=
  ⟨metricName "balance", "How much ETH is in this node wallet", samples⟩

def describe : List Family :=
  gauges.map (fun g => ⟨metricName g.name, g.help, []⟩) ++ [balanceFamily []]

def collect : Option Metrics → List Family
  | none => []
  | some m =>
    gauges.map (·.family m) ++
      [balanceFamily (balances.map fun b => ⟨metricName "balance", [("Token", b.1)], b.2 m⟩)]

/-! ## Text -/

/-- What the library that writes the text settles: its type, and the text of a number. -/
structure Format where
  contentType : Text
  number : Double → Text

def labelText (l : Text × Text) : Text := l.1 ++ "=\"" ++ l.2 ++ "\""

/-- The labels in braces, separated by commas; no braces without a label. -/
def labelsText : List (Text × Text) → Text
  | [] => Text.empty
  | ls => "\x7b" ++ Text.concat ((ls.map labelText).intersperse ",") ++ "\x7d"

variable (fmt : Format)

def Sample.line (s : Sample) : Text := s.name ++ labelsText s.labels ++ " " ++ fmt.number s.value ++ "\n"

def Family.text (f : Family) : Text :=
  "# HELP " ++ f.name ++ " " ++ f.help ++ "\n# TYPE " ++ f.name ++ " gauge\n" ++
    Text.concat (f.samples.map (Sample.line fmt))

def render (families : List Family) : Text := Text.concat (families.map (Family.text fmt))

end NodeGauge.Exposition
