import NodeGauge.Daemon
import NodeGauge.FileTree
import NodeGauge.Job.Schedule
import NodeGauge.Proofs.Job.Endings
import NodeGauge.Proofs.Rewards.Commits
import NodeGauge.Proofs.Rewards.Buckets
import NodeGauge.Proofs.Rewards.Readings
import NodeGauge.Proofs.Wei
import NodeGauge.Proofs.Rewards.Reconcile
import NodeGauge.Proofs.Address
import NodeGauge.Proofs.Chain.Steady
import NodeGauge.Proofs.Rewards.Failure
import NodeGauge.Proofs.Cycle.Ledger
import NodeGauge.Proofs.Cycle.Conservation
import NodeGauge.Proofs.Double.Sums
import NodeGauge.Proofs.Job.Sides
import NodeGauge.Proofs.Beacon.Lookup
import NodeGauge.Proofs.Cycle.Growth
import NodeGauge.Proofs.Cycle.Outcome
import NodeGauge.Proofs.Cycle.Faults
import NodeGauge.Proofs.Cycle.Siblings
import NodeGauge.Proofs.Cycle.Updates
import NodeGauge.Proofs.Rewards.Partition
import NodeGauge.Proofs.Minipool.Batches
import NodeGauge.Proofs.Cycle.Report
import NodeGauge.Proofs.Daemon.Rounds
import NodeGauge.Proofs.Service.Scrapes
import NodeGauge.Proofs.Json.Integers
import NodeGauge.Proofs.Rewards.Files
import NodeGauge.Proofs.Beacon.Faults
import NodeGauge.Proofs.Minipool.Calls
import NodeGauge.Proofs.Job.Sure
import NodeGauge.Proofs.Cycle.Sure
import NodeGauge.Proofs.Cycle.Serial
import NodeGauge.Proofs.Beacon.Retries
import NodeGauge.Proofs.Rewards.Entries
import NodeGauge.Proofs.Address.Spelling
import NodeGauge.Proofs.Snapshot.Spelling
import NodeGauge.Proofs.Job.Within
import NodeGauge.Proofs.Rewards.Pruned
import NodeGauge.Proofs.Cycle.Pruned
import NodeGauge.Proofs.Double.Nearest
import NodeGauge.Proofs.Wei.Nearest
import NodeGauge.Proofs.Double.Operations
import NodeGauge.Proofs.Rewards.Restart
import NodeGauge.Proofs.Chain.Sessions
import NodeGauge.Proofs.Chain.StorageKey
import NodeGauge.Proofs.Cycle.Edges
import NodeGauge.Proofs.Exposition.Reading
import NodeGauge.Proofs.Rewards.Boundary
import NodeGauge.Proofs.Json.Numerals
import NodeGauge.Proofs.Json.Quoted
import NodeGauge.Proofs.Rewards.Quoted
