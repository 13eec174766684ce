import Brdns.Spec.Blocking
import Brdns.Spec.InMem
import Brdns.Spec.Rules
import Brdns.Spec.Upstream

/-! `lib/policy.rs` and `lib/pipeline.rs` over the in-memory control plane: the policy cache and
what becomes of one query. -/

namespace Brdns

open Lib BytePacketBuffer

abbrev PolicyCache := Snapshot

/-- `PolicyCache::refresh` on the outcome of `cp.snapshot()`. -/
def PolicyCache.refresh (self : PolicyCache) (snapshot : CplResult Snapshot) :
    CplResult ℕ × PolicyCache :=
  match snapshot with
  | .error e => (.error e, self)
  | .ok snapshot => (.ok snapshot.len, snapshot)

/-- What the queries share: the control plane, the policy cache, the category index and the
transport pool. -/
structure Server where
  cp : InMemControlPlane
  cache : PolicyCache
  categories : CategoryIndex
  upstreams : UpstreamPool

def Server.init (fallback : Transport) : Server :=
  ⟨InMemControlPlane.default, ∅, ∅, UpstreamPool.new fallback⟩

/-- The world outside during one query: the clock and what a transport answers. -/
structure World where
  now : ℤ
  sendRecv : Transport → Bytes → CplResult Bytes

inductive Outcome where
  | Allow
  | Deny
  | LimitOk
  | LimitExceeded
  | Error
  deriving DecidableEq

/-- How a query ended, and every message sent to a transport for it. -/
structure Answer where
  outcome : Outcome
  result : CplResult Bytes
  sent : List (Transport × Bytes)

namespace Pipeline

section

variable [Text.UnicodeTables]

/-- The name of the first question of a raw query. -/
def queryName (rawQuery : Bytes) : CplResult Text := do
  let (packet, _) ← runBuffer DnsPacket.fromBuffer (fromBytes rawQuery)
  pure (Blocking.firstName packet)

end

/-- The rules a query is judged by: those of the cached policy, none without one. -/
def cachedRules (cached : Option AccountPolicy) : List Rule :=
  (cached.map AccountPolicy.rules).getD []

def decision (categories : CategoryIndex) (rules : List Rule) (qname : Text) : Option Decision :=
  RuleEngine.evaluate qname (fun cat => categories.contains qname cat) rules

def transportFor (upstreams : UpstreamPool) (policy : Option AccountPolicy) :
    TransportArc × UpstreamPool :=
  match policy.bind AccountPolicy.upstream with
  | some upstream => upstreams.get upstream
  | none => (upstreams.fallback, upstreams)

def forward (world : World) (server : Server) (cached : Option AccountPolicy) (outcome : Outcome)
    (rawQuery : Bytes) : Answer × Server :=
  let (arc, upstreams) := transportFor server.upstreams cached
  (⟨outcome, world.sendRecv arc.transport rawQuery, [(arc.transport, rawQuery)]⟩,
    { server with upstreams })

variable [Text.UnicodeTables]

def handleInner (policy : BlockPolicy) (world : World) (server : Server) (account : Text)
    (rawQuery : Bytes) : Answer × Server :=
  match queryName rawQuery with
  | .error e => (⟨.Error, .error e, []⟩, server)
  | .ok qname =>
    let cached := server.cache.lookup account
    match decision server.categories (cachedRules cached) qname with
    | some .Deny => (⟨.Deny, Blocking.synthesize rawQuery policy, []⟩, server)
    | some (.Limit ruleId limitCount window) =>
      let (admitted, cp) := server.cp.recordQuota account ruleId limitCount window world.now
      let server := { server with cp }
      match admitted with
      | .ok true => forward world server cached .LimitOk rawQuery
      | .ok false => (⟨.LimitExceeded, Blocking.synthesize rawQuery policy, []⟩, server)
      | .error e => (⟨.Error, .error e, []⟩, server)
    | _ => forward world server cached .Allow rawQuery

/-- `handle_query` adds only metrics to `handle_inner`. -/
def handleQuery (policy : BlockPolicy) (world : World) (server : Server) (account : Text)
    (rawQuery : Bytes) : Answer × Server :=
  handleInner policy world server account rawQuery

end Pipeline

end Brdns
