/-
  NodeGauge.Rewards.Ledger — the running totals of what the node has claimed. Each
  interval is folded in once, with the amounts it first came with; the amounts of a
  commit are summed exactly in wei and added to the totals in ether.
-/

import NodeGauge.Note
import NodeGauge.Rewards.Tree

namespace NodeGauge.Rewards

structure Ledger where
  rpl : Double := 0
  eth : Double := 0
  handled : List Int := []
  nextBlock : Option Int := none
  deriving DecidableEq, Repr

/-- What one commit adds: the exact sums and the intervals that are new. -/
structure Batch where
  rpl : Wei := 0
  eth : Wei := 0
  fresh : List Int := []
  deriving DecidableEq, Repr

namespace Ledger

def empty : Ledger := {}

def isHandled (l : Ledger) (interval : Int) : Bool := l.handled.contains interval

def stageOne (l : Ledger) (b : Batch) (info : IntervalInfo) : Batch :=
  if l.isHandled info.index ∨ b.fresh.contains info.index then b
  else ⟨b.rpl + info.collateralRpl, b.eth + info.smoothingPoolEth, b.fresh ++ [info.index]⟩

def stage (l : Ledger) (infos : List IntervalInfo) : Batch := infos.foldl l.stageOne {}

/-- Folds the intervals in; `block` is the latest block. The RPL total is moved first: a
    sum of ETH that is no amount leaves it moved and the rest as it was. -/
def commit (l : Ledger) (infos : List IntervalInfo) (block : Int) : Ledger × Except Fault Unit :=
  let b := l.stage infos
  match Wei.toEther b.rpl with
  | .error f => (l, .error f)
  | .ok rpl =>
    let l := { l with rpl := l.rpl + rpl }
    match Wei.toEther b.eth with
    | .error f => (l, .error f)
    | .ok eth =>
      ({ l with eth := l.eth + eth, handled := l.handled ++ b.fresh, nextBlock := some (block + 1) }, .ok ())

/-- The line that a commit writes to the log, if it has folded intervals in. -/
def line? (l : Ledger) (infos : List IntervalInfo) (block : Int) : Option Note :=
  match l.commit infos block, (l.stage infos).fresh with
  | (l', .ok ()), i :: rest => some (.folded ((i :: rest).mergeSort (· ≤ ·)) l'.rpl l'.eth)
  | _, _ => none

end Ledger

end NodeGauge.Rewards
