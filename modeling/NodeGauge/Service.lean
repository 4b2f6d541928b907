/-
  NodeGauge.Service — what the exporter answers to a request: whether a snapshot is
  there, and the metrics of a cycle run for the request. A scrape holds its lock from the
  cycle to the text, so the text is that of its own cycle; a cycle that fails fails the
  scrape and leaves on show what was. Which of the two a request is for is read off its
  target by the web framework, and given.
-/

import NodeGauge.Cycle
import NodeGauge.Exposition

namespace NodeGauge.Service

open Job (send)

structure Response where
  contentType : Text
  body : Text
  deriving DecidableEq, Repr

inductive Route where
  | health
  | metrics
  deriving DecidableEq, Repr

def health : Job Response := do
  let there := (← send .snapshot).isSome
  return ⟨"text/plain; charset=utf-8", if there then "exporter 1" else "exporter 0"⟩

variable (fmt : Exposition.Format) (cfg : Settings) (node : Address)

def scrape : Job Response := Job.withLock .scrape do
  send (.display (← Cycle.collect cfg node))
  return ⟨fmt.contentType, Exposition.render fmt (Exposition.collect (← send .shown))⟩

/-- The answer to a request, by the route that its target names if it names one. -/
def respond : Option Route → Job Response
  | some .health => health
  | some .metrics => scrape fmt cfg node
  | none => .fail .noRoute

end NodeGauge.Service
