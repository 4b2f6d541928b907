/-
  NodeGauge.Proofs.Job.Sure — what is sure of a job while everything around it may change
  but the ledger. A reply may be any, unless the ledger gives it (`Ask.Given`); so what holds
  at all endings is had by going through the job once, with the ledger and the exchanges so
  far (`Sure`), and no step loses it (`Step.sure`). Before each commit it has to be seen that
  none of its intervals is handled.

  Beside a job may run another one that commits nothing. Its exchanges are not counted, so
  those that are counted are only some of all (`Noted`), but no commit is missed.
-/

import NodeGauge.Proofs.Job.Endings
import NodeGauge.Proofs.Rewards.Commits

namespace NodeGauge

open Rewards (Ledger IntervalInfo)

namespace Ask

/-- What becomes of the ledger. -/
def ledgerAfter (l : Ledger) : Ask → Ledger
  | .commit infos block => (l.commit infos block).1
  | _ => l

/-- A reply that can be had with the ledger; where the ask is not about it, any. -/
def Given (l : Ledger) : (q : Ask) → q.Reply → Prop
  | .ledger, r => r = l
  | .commit infos block, r => r = (l.commit infos block).2
  | _, _ => True

/-- A commit is of intervals that are not handled. -/
def Fresh (l : Ledger) : Ask → Prop
  | .commit infos _ => ∀ info ∈ infos, l.isHandled info.index = false
  | _ => True

def NoCommit : Ask → Prop
  | .commit .. => False
  | _ => True

variable {q : Ask} {l : Ledger}

theorem ledgerAfter_of_noCommit (h : q.NoCommit) : q.ledgerAfter l = l := by
  cases q <;> first | rfl | exact h.elim

theorem fresh_of_noCommit (h : q.NoCommit) : q.Fresh l := by
  cases q <;> trivial

theorem given_reply (w : World) (q : Ask) : q.Given w.memory.ledger (q.reply w) := by
  cases q <;> trivial

theorem ledger_after (w : World) (q : Ask) : (w.after q).memory.ledger = q.ledgerAfter w.memory.ledger := by
  cases q <;> rfl

end Ask

/-- What was committed in these exchanges. -/
def commitsIn (seen : List Exchange) : List (List IntervalInfo × Int) :=
  seen.filterMap fun x => match x.ask with
    | .commit infos block => some (infos, block)
    | _ => none

theorem commitsIn_append (xs ys : List Exchange) : commitsIn (xs ++ ys) = commitsIn xs ++ commitsIn ys :=
  List.filterMap_append ..

theorem commitsIn_of_noCommit {q : Ask} (h : q.NoCommit) (r : q.Reply) : commitsIn [⟨q, r⟩] = [] := by
  cases q <;> first | rfl | exact h.elim

/-- Some of the exchanges, with all commits among them. -/
structure Noted (some all : List Exchange) : Prop where
  sublist : some.Sublist all
  commits : commitsIn all = commitsIn some

variable {a b c : List Exchange}

theorem Noted.refl (a : List Exchange) : Noted a a := ⟨.refl a, rfl⟩

theorem Noted.trans (h : Noted a b) (h' : Noted b c) : Noted a c :=
  ⟨h.sublist.trans h'.sublist, h'.commits.trans h.commits⟩

theorem Noted.append (h : Noted a b) (xs : List Exchange) : Noted (xs ++ a) (xs ++ b) :=
  ⟨h.sublist.append_left xs, by rw [commitsIn_append, commitsIn_append, h.commits]⟩

theorem Noted.cons (h : Noted a b) {q : Ask} (hq : q.NoCommit) (r : q.Reply) : Noted a (⟨q, r⟩ :: b) := by
  refine ⟨h.sublist.trans (List.sublist_cons_self _ b), ?_⟩
  rw [← List.singleton_append, commitsIn_append, commitsIn_of_noCommit hq, h.commits, List.nil_append]

namespace Job

/-- The job comes to this by these exchanges, the latest first. -/
def Along {α : Type} : Job α → List Exchange → Except Fault α → Prop
  | done a, seen, x => seen = [] ∧ x = .ok a
  | fail f, seen, x => seen = [] ∧ x = .error f
  | ask q k, seen, x => ∃ r rest, seen = rest ++ [⟨q, r⟩] ∧ (k r).Along rest x
  | both .., _, _ | pair .., _, _ => False

/-- A property of the exchanges, the ledger and the outcome is sure to hold at the end, and
    each commit is of intervals that are not handled, whatever else changes. -/
def Sure {α : Type} : Job α → (List Exchange → Ledger → Except Fault α → Prop) → List Exchange → Ledger → Prop
  | done a, Q, seen, l => Q seen l (.ok a)
  | fail f, Q, seen, l => Q seen l (.error f)
  | ask q k, Q, seen, l => q.Fresh l ∧ ∀ r, q.Given l r → (k r).Sure Q (⟨q, r⟩ :: seen) (q.ledgerAfter l)
  | both left right k, Q, seen, l => ∃ R, left.Sure R seen l ∧ right.Uses Ask.NoCommit ∧
      ∀ seen' l' x y, R seen' l' x → (k x y).Sure Q seen' l'
  | pair left right k, Q, seen, l => left.Uses Ask.NoCommit ∧ right.Uses Ask.NoCommit ∧ ∀ x, (k x).Sure Q seen l

variable {α β γ : Type} {Q Q' : List Exchange → Ledger → Except Fault α → Prop} {j : Job α} {seen : List Exchange}
  {l : Ledger} {w v : World}

/-! ## Going through a job -/

theorem Sure.mono (hQ : ∀ seen l x, Q seen l x → Q' seen l x) (h : j.Sure Q seen l) : j.Sure Q' seen l := by
  induction j generalizing seen l with
  | done a => exact hQ _ _ _ h
  | fail f => exact hQ _ _ _ h
  | ask q k ih => exact ⟨h.1, fun r hr => ih r hQ (h.2 r hr)⟩
  | both left right k _ _ ih =>
    obtain ⟨R, hleft, hright, hk⟩ := h
    exact ⟨R, hleft, hright, fun seen' l' x y hR => ih x y hQ (hk seen' l' x y hR)⟩
  | pair left right k _ _ ih => exact ⟨h.1, h.2.1, fun x => ih x hQ (h.2.2 x)⟩

/-- What a bind does with what its first part came to. -/
def Onward (f : α → Job β) (Q : List Exchange → Ledger → Except Fault β → Prop) (seen : List Exchange) (l : Ledger) :
    Except Fault α → Prop
  | .ok a => (f a).Sure Q seen l
  | .error e => Q seen l (.error e)

theorem sure_bind {f : α → Job β} {Q : List Exchange → Ledger → Except Fault β → Prop}
    (h : j.Sure (Onward f Q) seen l) : (j.bind f).Sure Q seen l := by
  induction j generalizing seen l with
  | done a => exact h
  | fail e => exact h
  | ask q k ih => exact ⟨h.1, fun r hr => ih r (h.2 r hr)⟩
  | both left right k _ _ ih =>
    obtain ⟨R, hleft, hright, hk⟩ := h
    exact ⟨R, hleft, hright, fun seen' l' x y hR => ih x y (hk seen' l' x y hR)⟩
  | pair left right k _ _ ih => exact ⟨h.1, h.2.1, fun x => ih x (h.2.2 x)⟩

theorem sure_attempt {Q : List Exchange → Ledger → Except Fault (Except Fault α) → Prop}
    (h : j.Sure (fun seen l x => Q seen l (.ok x)) seen l) : j.attempt.Sure Q seen l := by
  induction j generalizing seen l with
  | done a => exact h
  | fail e => exact h
  | ask q k ih => exact ⟨h.1, fun r hr => ih r (h.2 r hr)⟩
  | both left right k _ _ ih =>
    obtain ⟨R, hleft, hright, hk⟩ := h
    exact ⟨R, hleft, hright, fun seen' l' x y hR => ih x y (hk seen' l' x y hR)⟩
  | pair left right k _ _ ih => exact ⟨h.1, h.2.1, fun x => ih x (h.2.2 x)⟩

/-- Of a job that commits nothing only its exchanges are new, and anything may come of it. -/
theorem sure_of_noCommit (hj : j.Uses Ask.NoCommit) (h : ∀ seen' x, Noted seen seen' → Q seen' l x) :
    j.Sure Q seen l := by
  induction j generalizing seen with
  | done a => exact h seen _ (.refl seen)
  | fail f => exact h seen _ (.refl seen)
  | ask q k ih =>
    refine ⟨Ask.fresh_of_noCommit hj.1, fun r _ => ?_⟩
    rw [Ask.ledgerAfter_of_noCommit hj.1]
    exact ih r (hj.2 r) fun seen' x hs => h seen' x (((Noted.refl seen).cons hj.1 r).trans hs)
  | both left right k ihl _ ih =>
    refine ⟨fun seen' l' _ => Noted seen seen' ∧ l' = l, ihl hj.1 fun _ _ hs => ⟨hs, rfl⟩, hj.2.1, ?_⟩
    rintro seen' _ x y ⟨hs, rfl⟩
    exact ih x y (hj.2.2 x y) fun seen'' z hs' => h seen'' z (hs.trans hs')
  | pair left right k _ _ ih => exact ⟨hj.1, hj.2.1, fun x => ih x (hj.2.2 x) h⟩

/-- The same where it has no fork, with how it came to it. -/
theorem sure_of_straight (hj : j.Straight Ask.NoCommit)
    (h : ∀ asked x, j.Along asked x → commitsIn asked = [] → Q (asked ++ seen) l x) : j.Sure Q seen l := by
  induction j generalizing seen with
  | done a => exact h [] _ ⟨rfl, rfl⟩ rfl
  | fail f => exact h [] _ ⟨rfl, rfl⟩ rfl
  | ask q k ih =>
    refine ⟨Ask.fresh_of_noCommit hj.1, fun r _ => ?_⟩
    rw [Ask.ledgerAfter_of_noCommit hj.1]
    refine ih r (hj.2 r) fun asked x hx hasked => ?_
    have hone := commitsIn_of_noCommit hj.1 r
    have hall := h (asked ++ [⟨q, r⟩]) x ⟨r, asked, rfl, hx⟩ (by rw [commitsIn_append, hasked, hone, List.nil_append])
    rwa [List.append_assoc] at hall
  | both left right k => exact hj.elim
  | pair left right k => exact hj.elim

/-! ## Steps -/

/-- A step of a job that commits nothing: its exchange, if there is one, need not be counted. -/
theorem Step.uncounted {j' : Job α} {ts : List Task} (s : Step j w j' v ts) (hj : j.Uses Ask.NoCommit) :
    j'.Uses Ask.NoCommit ∧ v.memory.ledger = w.memory.ledger ∧ ∃ new, v.history = new ++ w.history ∧
      (∀ x ∈ new, ∀ l, x.ask.Fresh l) ∧ ∀ seen all, Noted seen all → Noted seen (new ++ all) := by
  obtain ⟨hj', rfl | ⟨q, hq, rfl⟩⟩ := s.uses hj
  · exact ⟨hj', rfl, [], rfl, fun _ hx => (List.not_mem_nil hx).elim, fun _ _ hall => hall⟩
  · refine ⟨hj', ?_, [⟨q, q.reply w⟩], rfl, ?_, fun _ _ hall => hall.cons hq _⟩
    · rw [Ask.ledger_after, Ask.ledgerAfter_of_noCommit hq]
    · intro x hx l
      rw [List.mem_singleton.mp hx]
      exact Ask.fresh_of_noCommit hq

/-- A step adds its exchange to the history, and it is sure of the rest of the job. -/
theorem Step.sure {j' : Job α} {ts : List Task} (s : Step j w j' v ts) (h : j.Sure Q seen w.memory.ledger) :
    ∃ new, v.history = new ++ w.history ∧ (∀ x ∈ new, x.ask.Fresh w.memory.ledger) ∧
      ∃ seen', j'.Sure Q seen' v.memory.ledger ∧ ∀ all, Noted seen all → Noted seen' (new ++ all) := by
  -- a step without an ask leaves the history as it is
  have hsilent : ∀ (seen : List Exchange) (w : World), ∃ new, w.history = new ++ w.history ∧
      (∀ x ∈ new, x.ask.Fresh w.memory.ledger) ∧ ∀ all, Noted seen all → Noted seen (new ++ all) :=
    fun _ _ => ⟨[], rfl, fun _ hx => (List.not_mem_nil hx).elim, fun _ hall => hall⟩
  induction s generalizing seen with
  | @ask α q k w _ =>
    refine ⟨[⟨q, q.reply w⟩], rfl, ?_, ⟨q, q.reply w⟩ :: seen, ?_, fun all hall => hall.append [_]⟩
    · intro x hx
      rw [List.mem_singleton.mp hx]
      exact h.1
    · rw [Ask.ledger_after]
      exact h.2 _ (Ask.given_reply w q)
  | left s ih =>
    obtain ⟨R, hleft, hright, hk⟩ := h
    obtain ⟨new, hnew, hfresh, seen', hsure, hnoted⟩ := ih hleft
    exact ⟨new, hnew, hfresh, seen', ⟨R, hsure, hright, hk⟩, hnoted⟩
  | right s ih =>
    obtain ⟨R, hleft, hright, hk⟩ := h
    obtain ⟨hr', hledger, new, hnew, hfresh, hnoted⟩ := s.uncounted hright
    exact ⟨new, hnew, fun x hx => hfresh x hx _, seen, ⟨R, by rwa [hledger], hr', hk⟩, hnoted seen⟩
  | @join α β γ l r k w x y hx hy =>
    obtain ⟨R, hleft, hright, hk⟩ := h
    have hR : R seen w.memory.ledger x := by
      cases l <;> cases hx <;> exact hleft
    obtain ⟨new, hnew, hfresh, hnoted⟩ := hsilent seen w
    exact ⟨new, hnew, hfresh, seen, hk _ _ _ _ hR, hnoted⟩
  | pairLeft _ s ih =>
    obtain ⟨hleft, hright, hk⟩ := h
    obtain ⟨hl', hledger, new, hnew, hfresh, hnoted⟩ := s.uncounted hleft
    exact ⟨new, hnew, fun x hx => hfresh x hx _, seen, ⟨hl', hright, fun x => by rw [hledger]; exact hk x⟩, hnoted seen⟩
  | pairRight _ s ih =>
    obtain ⟨hleft, hright, hk⟩ := h
    obtain ⟨hr', hledger, new, hnew, hfresh, hnoted⟩ := s.uncounted hright
    exact ⟨new, hnew, fun x hx => hfresh x hx _, seen, ⟨hleft, hr', fun x => by rw [hledger]; exact hk x⟩, hnoted seen⟩
  | meet =>
    obtain ⟨new, hnew, hfresh, hnoted⟩ := hsilent seen _
    exact ⟨new, hnew, hfresh, seen, h.2.2 _, hnoted⟩
  | quitLeft =>
    obtain ⟨new, hnew, hfresh, hnoted⟩ := hsilent seen _
    exact ⟨new, hnew, hfresh, seen, h.2.2 _, hnoted⟩
  | quitRight =>
    obtain ⟨new, hnew, hfresh, hnoted⟩ := hsilent seen _
    exact ⟨new, hnew, hfresh, seen, h.2.2 _, hnoted⟩

end Job

end NodeGauge
