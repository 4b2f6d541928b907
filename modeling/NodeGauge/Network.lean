/-
  NodeGauge.Network — the networks the exporter knows and what is fixed for each.
-/

import NodeGauge.Address

namespace NodeGauge

structure Network where
  executionEndpoint : Text
  beaconEndpoint : Text
  slotsPerEpoch : Nat
  secondsPerSlot : Nat
  storage : Address
  /-- The network's name in the names of the rewards trees. -/
  treeName : Text
  isPoa : Bool
  deriving DecidableEq, Repr

namespace Network

def withName (name : Text) (storage : Address) : Network where
  executionEndpoint := "http://localhost:8545"
  beaconEndpoint := "http://localhost:5052"
  slotsPerEpoch := 32
  secondsPerSlot := 12
  storage := storage
  treeName := name
  isPoa := false

def mainnet : Network := withName "mainnet" (Address.ofNat 0x1d8f8f00cfa6758d7be78336684788fb0ee0fa46)

def holesky : Network := withName "holesky" (Address.ofNat 0x594fb75d3dc2dfa0150ad03f99f97817747dd4e1)

end Network

end NodeGauge
