import Brdns.Proofs.Decision
import Brdns.Proofs.Management
import Brdns.Spec.Machine

/-! The ways one query can go, each with its guards, and what a query leaves unchanged. Every
result about queries below is a case analysis of `QueryRun`. -/

namespace Brdns

open Lib BytePacketBuffer RuleEngine Pipeline

/-! ### Transports -/

structure UpstreamPool.Sound (fallback : Transport) (pool : UpstreamPool) : Prop where
  fallback_eq : pool.fallback.transport = fallback
  built : ∀ up arc, pool.cache.lookup (keyOf up) = some arc → arc.transport = buildTransport up

namespace UpstreamPool

theorem sound_new (fallback : Transport) : Sound fallback (new fallback) :=
  ⟨rfl, fun up arc h => by simp [new] at h⟩

theorem buildTransport_congr {up up' : Upstream} (h : keyOf up = keyOf up') :
    buildTransport up = buildTransport up' := by
  simp only [keyOf, Prod.mk.injEq] at h
  obtain ⟨hprotocol, hhost, hport, haddr⟩ := h
  simp only [buildTransport, hprotocol, hhost, hport, haddr]

theorem get_transport {fallback : Transport} {pool : UpstreamPool} (h : Sound fallback pool)
    (up : Upstream) : (pool.get up).1.transport = buildTransport up := by
  unfold get
  split
  · next arc hit => exact h.built up arc hit
  · rfl

theorem get_sound {fallback : Transport} {pool : UpstreamPool} (h : Sound fallback pool)
    (up : Upstream) : Sound fallback (pool.get up).2 := by
  unfold get
  split
  · exact h
  · refine ⟨h.fallback_eq, fun up' arc hit => ?_⟩
    rw [HashMap.lookup_insert] at hit
    split_ifs at hit with hkey
    · cases hit
      exact buildTransport_congr hkey.symm
    · exact h.built up' arc hit

end UpstreamPool

namespace Pipeline

theorem transportFor_sound {fallback : Transport} {pool : UpstreamPool}
    (h : UpstreamPool.Sound fallback pool) (cached : Option AccountPolicy) :
    UpstreamPool.Sound fallback (transportFor pool cached).2 := by
  unfold transportFor
  split
  · exact UpstreamPool.get_sound h _
  · exact h

theorem cachedRules_snapshot (cp : InMemControlPlane) (n : Text) :
    cachedRules (cp.snapshot.lookup n) = cp.rules n := by
  unfold cachedRules InMemControlPlane.snapshot InMemControlPlane.rules
  rw [HashMap.lookup_mapVal, Option.map_map]
  rfl

def transportIn (fallback : Transport) (cached : Option AccountPolicy) : Transport :=
  ((cached.bind AccountPolicy.upstream).map UpstreamPool.buildTransport).getD fallback

theorem transportFor_transport {fallback : Transport} {pool : UpstreamPool}
    (h : UpstreamPool.Sound fallback pool) (cached : Option AccountPolicy) :
    (transportFor pool cached).1.transport = transportIn fallback cached := by
  unfold transportFor transportIn
  cases cached.bind AccountPolicy.upstream with
  | none => exact h.fallback_eq
  | some up => exact UpstreamPool.get_transport h up

theorem forward_answer {fallback : Transport} {server : Server}
    (hpool : server.upstreams.Sound fallback) (world : World) (cached : Option AccountPolicy)
    (outcome : Outcome) (raw : Bytes) :
    (forward world server cached outcome raw).1 =
      ⟨outcome, world.sendRecv (transportIn fallback cached) raw,
        [(transportIn fallback cached, raw)]⟩ := by
  rw [← transportFor_transport hpool]
  rfl

end Pipeline

/-! ### One query -/

namespace Server

def decidingRule (self : Server) (account qname : Text) : Option Rule :=
  firstMatch qname (fun cat => self.categories.contains qname cat)
    (cachedRules (self.cache.lookup account))

def charge (self : Server) (account : Text) (now : ℤ) (rule : Rule) :
    CplResult Bool × InMemControlPlane :=
  self.cp.recordQuota account rule.id (rule.limitCount.getD 0) (rule.limitWindow.getD .Month) now

theorem charge_run (self : Server) (account : Text) (now : ℤ) (rule : Rule) :
    QuotaRun self.cp rule.id (rule.limitCount.getD 0) (rule.limitWindow.getD .Month) now
      (self.charge account now rule) := self.cp.recordQuota_run account _ _ _ _

theorem decision_eq (self : Server) (account qname : Text) :
    decision self.categories (cachedRules (self.cache.lookup account)) qname =
      (self.decidingRule account qname).map decisionOf := evaluate_eq _ _ _

end Server

section

variable [Text.UnicodeTables]

inductive QueryRun (policy : BlockPolicy) (world : World) (server : Server) (account : Text)
    (raw : Bytes) : Answer × Server → Prop
  | unparsed {e : Failure} (hname : queryName raw = .error e) :
      QueryRun policy world server account raw (⟨.Error, .error e, []⟩, server)
  | denied {qname : Text} {rule : Rule} (hname : queryName raw = .ok qname)
      (hrule : server.decidingRule account qname = some rule) (haction : rule.action = .Deny) :
      QueryRun policy world server account raw
        (⟨.Deny, Blocking.synthesize raw policy, []⟩, server)
  | exceeded {qname : Text} {rule : Rule} (hname : queryName raw = .ok qname)
      (hrule : server.decidingRule account qname = some rule) (haction : rule.action = .Limit)
      (hcharge : (server.charge account world.now rule).1 = .ok false) :
      QueryRun policy world server account raw
        (⟨.LimitExceeded, Blocking.synthesize raw policy, []⟩,
          { server with cp := (server.charge account world.now rule).2 })
  | failed {qname : Text} {rule : Rule} {e : Failure} (hname : queryName raw = .ok qname)
      (hrule : server.decidingRule account qname = some rule) (haction : rule.action = .Limit)
      (hcharge : (server.charge account world.now rule).1 = .error e) :
      QueryRun policy world server account raw
        (⟨.Error, .error e, []⟩, { server with cp := (server.charge account world.now rule).2 })
  | admitted {qname : Text} {rule : Rule} (hname : queryName raw = .ok qname)
      (hrule : server.decidingRule account qname = some rule) (haction : rule.action = .Limit)
      (hcharge : (server.charge account world.now rule).1 = .ok true) :
      QueryRun policy world server account raw
        (forward world { server with cp := (server.charge account world.now rule).2 }
          (server.cache.lookup account) .LimitOk raw)
  | allowed {qname : Text} (hname : queryName raw = .ok qname)
      (hrule : ∀ rule, server.decidingRule account qname = some rule → rule.action = .Allow) :
      QueryRun policy world server account raw
        (forward world server (server.cache.lookup account) .Allow raw)

theorem handleQuery_run (policy : BlockPolicy) (world : World) (server : Server) (account : Text)
    (raw : Bytes) :
    QueryRun policy world server account raw (handleQuery policy world server account raw) := by
  unfold handleQuery handleInner
  cases hname : queryName raw with
  | error e => exact .unparsed hname
  | ok qname =>
    simp only [server.decision_eq]
    cases hrule : server.decidingRule account qname with
    | none => exact .allowed hname (by simp [hrule])
    | some rule =>
      rw [Option.map_some, decisionOf]
      cases haction : rule.action with
      | Allow => exact .allowed hname (by simp [hrule, haction])
      | Deny => exact .denied hname hrule haction
      | Limit =>
        have hfold : server.cp.recordQuota account rule.id (rule.limitCount.getD 0)
            (rule.limitWindow.getD .Month) world.now = server.charge account world.now rule := rfl
        dsimp only
        rw [hfold]
        rcases hcharge : (server.charge account world.now rule).1 with e | _ | _
        · exact .failed hname hrule haction hcharge
        · exact .exceeded hname hrule haction hcharge
        · exact .admitted hname hrule haction hcharge

end

/-! ### What a query leaves unchanged -/

section

variable {policy : BlockPolicy} {world : World} {server : Server} {account : Text} {raw : Bytes}
  {r : Answer × Server} [Text.UnicodeTables]

theorem QueryRun.cache (h : QueryRun policy world server account raw r) :
    r.2.cache = server.cache := by
  cases h <;> rfl

theorem QueryRun.categories (h : QueryRun policy world server account raw r) :
    r.2.categories = server.categories := by
  cases h <;> rfl

theorem QueryRun.pool_sound {fallback : Transport}
    (h : QueryRun policy world server account raw r) (hpool : server.upstreams.Sound fallback) :
    r.2.upstreams.Sound fallback := by
  cases h with
  | unparsed | denied | exceeded | failed => exact hpool
  | admitted | allowed => exact transportFor_sound hpool _

theorem QueryRun.cp (h : QueryRun policy world server account raw r) :
    r.2.cp = server.cp ∨ ∃ qname rule, server.decidingRule account qname = some rule ∧
      rule.action = .Limit ∧ r.2.cp = (server.charge account world.now rule).2 := by
  cases h with
  | unparsed | denied | allowed => exact .inl rfl
  | exceeded _ hrule haction _ | failed _ hrule haction _ | admitted _ hrule haction _ =>
    exact .inr ⟨_, _, hrule, haction, rfl⟩

end

end Brdns
