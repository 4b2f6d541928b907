/-
  NodeGauge.Snapshot.Refresh — the job that reads the snapshot's file and installs what it
  holds. A missing file is no fault and installs nothing; nor does a file that cannot be
  read or understood.
-/

import NodeGauge.Job
import NodeGauge.Json.Reader

namespace NodeGauge.Snapshot

open Job (send note)

/-- Whether a snapshot was installed. -/
def refresh (path : Text) : Job Bool := do
  match ← send (.file path) with
  | .error .missing =>
    note (.snapshotMissing path)
    return false
  | .error f => .fail (.file f)
  | .ok bytes =>
    let (snapshot, total) ← parse (← Json.ofBytes bytes)
    send (.install snapshot total)
    return true

end NodeGauge.Snapshot
