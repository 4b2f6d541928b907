/-
  NodeGauge.Chain.Provider — how the execution node is reached, by what its endpoint looks
  like. The path of a socket is resolved when the provider is chosen, and only that can
  fail.
-/

import NodeGauge.Job
import NodeGauge.Network
import NodeGauge.Path

namespace NodeGauge.Chain

inductive Provider where
  | http (url : Text)
  | ipc (path : Text)
  deriving DecidableEq, Repr

namespace Provider

def ofEndpoint (endpoint : Text) : Provider := if endpoint.startsWith "http" then .http endpoint else .ipc endpoint

def accounts : List Text :=
  ["root", "daemon", "bin", "sys", "sync", "games", "man", "lp", "mail", "news", "uucp", "proxy", "www-data", "backup",
   "list", "irc", "_apt", "nobody"]

/-- The account in whose home a path begins, if a tilde says so: the name behind it, empty
    for the account of the exporter itself. -/
def homeOf? (path : Text) : Option Text :=
  if path.startsWith "/" then none
  else match (Path.split path).find? (!Path.stays ·) with
    | some ⟨126 :: account⟩ => some ⟨account⟩
    | _ => none

/-- A home must be that of an account, and every name one that can be asked for. -/
def check : Provider → Except Fault Unit
  | http _ => .ok ()
  | ipc path => do
    match homeOf? path with
    | none => pure ()
    | some account => match Path.fault? account with
      | some f => .error (.file f)
      | none => if account.isEmpty || accounts.contains account then pure () else .error .homeUnknown
    match (Path.split path).findSome? Path.fault? with
    | some f => .error (.file f)
    | none => pure ()

def describe : Provider → Note
  | http url => .httpEndpoint url
  | ipc path => .ipcEndpoint path

def choose (n : Network) : Job Provider := do
  let p := ofEndpoint n.executionEndpoint
  p.check
  Job.note p.describe
  if n.isPoa then Job.note .poaInjected
  return p

end Provider

end NodeGauge.Chain
