import Brdns.Proofs.Enforcement
import Brdns.Spec.Identity

/-! Clients without an account. An empty fallback account is looked up like any other, has no
policy, and what no rule decides is forwarded. -/

namespace Brdns

open Lib Pipeline

theorem resolveAccount_fallback {domain : Text} {sni : Option Text}
    (h : sni.bind (accountFromSni · domain) = none) (fallbackAccount : Text) :
    resolveAccount domain fallbackAccount sni = fallbackAccount := by
  unfold resolveAccount
  rw [h]

section

variable [Text.UnicodeTables] {policy : BlockPolicy} {world : World} {server : Server}
  {account : Text} {raw : Bytes}

/-- Without a cached policy a query that parses is forwarded to the default transport. -/
theorem QueryRun.no_policy {r : Answer × Server} (h : QueryRun policy world server account raw r)
    (hcache : server.cache.lookup account = none) :
    r.1.sent = match queryName raw with
      | .ok _ => [(server.upstreams.fallback.transport, raw)]
      | .error _ => [] := by
  have hrule (qname : Text) : server.decidingRule account qname = none := by
    unfold Server.decidingRule
    rw [hcache]
    rfl
  cases h with
  | unparsed hname => rw [hname]
  | denied hname hdecides | exceeded hname hdecides | failed hname hdecides
  | admitted hname hdecides =>
    rw [hrule] at hdecides
    cases hdecides
  | allowed hname =>
    rw [hname, hcache]
    rfl

theorem sent_nil_iff_of_no_policy (hcache : server.cache.lookup account = none) :
    (handleQuery policy world server account raw).1.sent = [] ↔ ∃ e, queryName raw = .error e := by
  rw [(handleQuery_run policy world server account raw).no_policy hcache]
  cases queryName raw with
  | error e => exact ⟨fun _ => ⟨e, rfl⟩, fun _ => rfl⟩
  | ok qname =>
    constructor
    · intro h
      cases h
    · rintro ⟨e, h⟩
      cases h

end

/-- With an empty fallback account, a client that neither receiver can identify is refused only
when its query does not parse. -/
theorem unidentified_refused_iff [Text.UnicodeTables] (policy : BlockPolicy) (world : World)
    (server : Server) (hcache : server.cache.lookup [] = none) (domain : Text) (sni : Option Text)
    (hsni : sni.bind (accountFromSni · domain) = none) (raw : Bytes) :
    ((handleQuery policy world server ((DotApp.mk domain []).accountFor sni) raw).1.sent = [] ↔
        ∃ e, queryName raw = .error e) ∧
      ((handleQuery policy world server ((DohReceiver.mk ⟨domain, []⟩).accountFor sni) raw).1.sent
          = [] ↔ ∃ e, queryName raw = .error e) := by
  unfold DotApp.accountFor DohReceiver.accountFor
  rw [resolveAccount_fallback hsni]
  exact ⟨sent_nil_iff_of_no_policy hcache, sent_nil_iff_of_no_policy hcache⟩

def exampleQuery : Bytes :=
  [0x12, 0x34, 1, 0, 0, 1, 0, 0, 0, 0, 0, 0, 7, 101, 120, 97, 109, 112, 108, 101, 3, 99, 111, 109,
    0, 0, 1, 0, 1]

section

attribute [local instance] Text.asciiTables

theorem unidentified_refused_iff_short :
    (handleQuery nxdomainPolicy echoWorld (Server.init (.UdpTransport ['u'] 53))
      ((DotApp.mk "dns.example.com".toList []).accountFor (some "other.org".toList))
      [0x12]).1.sent = [] :=
  (unidentified_refused_iff nxdomainPolicy echoWorld (Server.init (.UdpTransport ['u'] 53))
    (by decide) "dns.example.com".toList (some "other.org".toList) (by decide +kernel)
    [0x12]).1.mpr ⟨.error "End of buffer", by decide +kernel⟩

/-- A client without SNI has its query forwarded. -/
theorem unidentified_forwarded :
    (handleQuery nxdomainPolicy echoWorld (Server.init (.UdpTransport ['u'] 53))
        ((DotApp.mk "dns.example.com".toList []).accountFor none) exampleQuery).1.sent =
      [(.UdpTransport ['u'] 53, exampleQuery)] ∧
    (handleQuery nxdomainPolicy echoWorld (Server.init (.UdpTransport ['u'] 53))
        ((DohReceiver.mk ⟨"dns.example.com".toList, []⟩).accountFor none) exampleQuery).1.sent =
      [(.UdpTransport ['u'] 53, exampleQuery)] := by
  decide +kernel

end

end Brdns
