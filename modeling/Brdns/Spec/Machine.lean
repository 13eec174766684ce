import Brdns.Lib.Machine
import Brdns.Spec.Pipeline

/-! The running server as a machine: management calls, cache refreshes, index replacements and
queries, in any order. -/

namespace Brdns

open Lib

inductive Step where
  | createAccount (accountNumber : Text)
  | replaceRules (accountNumber : Text) (news : List NewRule)
  | replaceUpstreams (accountNumber : Text) (news : List NewUpstream)
  | rules (accountNumber : Text)
  | listUpstreams (accountNumber : Text)
  | activeUpstream (accountNumber : Text)
  /-- A refresh whose snapshot call fails with the given failure, or succeeds. -/
  | refresh (failure : Option Failure)
  | replaceIndex (map : CategoryMap)
  | handleQuery (world : World) (account : Text) (rawQuery : Bytes)

inductive Output where
  | account (account : Account)
  | rules (result : CplResult (List Rule))
  | upstreams (result : CplResult (List Upstream))
  | upstream (result : Option Upstream)
  | refreshed (result : CplResult ℕ)
  | replaced
  | answer (answer : Answer)

/-- The account a step is made for. -/
def Step.account : Step → Option Text
  | .createAccount n | .replaceRules n _ | .replaceUpstreams n _ | .rules n | .listUpstreams n
  | .activeUpstream n | .handleQuery _ n _ => some n
  | .refresh _ | .replaceIndex _ => none

namespace Server

/-- The outcome of `cp.snapshot()` in a refresh step. -/
def snapshotResult (self : Server) : Option Failure → CplResult Snapshot
  | some e => .error e
  | none => .ok self.cp.snapshot

variable [Text.UnicodeTables]

def step (policy : BlockPolicy) (self : Server) : Step → Output × Server
  | .createAccount n =>
    let (account, cp) := self.cp.createAccount n
    (.account account, { self with cp })
  | .replaceRules n news =>
    let (result, cp) := self.cp.replaceRules n news
    (.rules result, { self with cp })
  | .replaceUpstreams n news =>
    let (result, cp) := self.cp.replaceUpstreams n news
    (.upstreams result, { self with cp })
  | .rules n => (.rules (.ok (self.cp.rules n)), self)
  | .listUpstreams n => (.upstreams (.ok (self.cp.listUpstreams n)), self)
  | .activeUpstream n => (.upstream (self.cp.activeUpstream n), self)
  | .refresh failure =>
    let (result, cache) := self.cache.refresh (self.snapshotResult failure)
    (.refreshed result, { self with cache })
  | .replaceIndex map => (.replaced, { self with categories := map })
  | .handleQuery world account rawQuery =>
    let (answer, server) := Pipeline.handleQuery policy world self account rawQuery
    (.answer answer, server)

def machine (policy : BlockPolicy) : Machine Server Step Output := ⟨step policy⟩

end Server

end Brdns
