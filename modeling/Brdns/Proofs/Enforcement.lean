import Brdns.Proofs.Query

/-! Policy enforcement over runs: a query is judged by the rules of the last snapshot taken, and
what these rules block is not sent anywhere. -/

namespace Brdns

open Lib BytePacketBuffer Pipeline

/-! ### The cache and the pool along a run -/

/-- The last snapshot taken, after one more step: only a successful refresh takes one. -/
def snapshotAfter (snapshot : Snapshot) (s : Server) : Step → Snapshot
  | .refresh none => s.cp.snapshot
  | _ => snapshot

section

variable [Text.UnicodeTables]

def lastSnapshot (policy : BlockPolicy) (snapshot : Snapshot) (s : Server) :
    List Step → Snapshot
  | [] => snapshot
  | i :: is => lastSnapshot policy (snapshotAfter snapshot s i) (s.step policy i).2 is

theorem step_cache (policy : BlockPolicy) (s : Server) (i : Step) :
    (s.step policy i).2.cache = snapshotAfter s.cache s i := by
  cases i with
  | refresh failure => cases failure <;> rfl
  | handleQuery world account raw => exact (handleQuery_run policy world s account raw).cache
  | _ => rfl

theorem cache_eq_lastSnapshot (policy : BlockPolicy) (is : List Step) (s : Server) :
    ((Server.machine policy).exec s is).cache = lastSnapshot policy s.cache s is := by
  induction is generalizing s with
  | nil => rfl
  | cons i is ih =>
    rw [Machine.exec_cons, ih, lastSnapshot, ← step_cache policy s i]
    rfl

theorem step_sound (policy : BlockPolicy) {fallback : Transport} {s : Server}
    (h : s.upstreams.Sound fallback) (i : Step) : (s.step policy i).2.upstreams.Sound fallback := by
  cases i with
  | handleQuery world account raw => exact (handleQuery_run policy world s account raw).pool_sound h
  | refresh failure => cases failure <;> exact h
  | _ => exact h

theorem pool_sound (policy : BlockPolicy) (fallback : Transport) (is : List Step) :
    ((Server.machine policy).exec (Server.init fallback) is).upstreams.Sound fallback :=
  Machine.invariant _ (fun s : Server => s.upstreams.Sound fallback) (fun _ => True)
    (fun _ i _ h => step_sound policy h i) is _ (fun _ _ => trivial)
    (UpstreamPool.sound_new fallback)

end

/-! ### Enforcement -/

def decidingRuleIn (snapshot : Snapshot) (categories : CategoryIndex) (account qname : Text) :
    Option Rule :=
  RuleEngine.firstMatch qname (fun cat => categories.contains qname cat)
    (cachedRules (snapshot.lookup account))

/-- The query is to be blocked: the deciding rule denies it, or limits it and `record_quota`
says that the limit is used up. -/
def Blocked (snapshot : Snapshot) (server : Server) (world : World) (account qname : Text) :
    Prop :=
  ∃ rule, decidingRuleIn snapshot server.categories account qname = some rule ∧
    (rule.action = .Deny ∨
      rule.action = .Limit ∧ (server.charge account world.now rule).1 = .ok false)

def QuotaFails (snapshot : Snapshot) (server : Server) (world : World) (account qname : Text)
    (e : Failure) : Prop :=
  ∃ rule, decidingRuleIn snapshot server.categories account qname = some rule ∧
    rule.action = .Limit ∧ (server.charge account world.now rule).1 = .error e

theorem blocked_iff {snapshot : Snapshot} {server : Server} {world : World} {account qname : Text}
    {rule : Rule}
    (h : decidingRuleIn snapshot server.categories account qname = some rule) :
    Blocked snapshot server world account qname ↔ rule.action = .Deny ∨
      rule.action = .Limit ∧ (server.charge account world.now rule).1 = .ok false := by
  simp [Blocked, h]

theorem quotaFails_iff {snapshot : Snapshot} {server : Server} {world : World}
    {account qname : Text} {rule : Rule} {e : Failure}
    (h : decidingRuleIn snapshot server.categories account qname = some rule) :
    QuotaFails snapshot server world account qname e ↔
      rule.action = .Limit ∧ (server.charge account world.now rule).1 = .error e := by
  simp [QuotaFails, h]

section

variable [Text.UnicodeTables]

/-- What the snapshot asks of one query. -/
structure Enforced (policy : BlockPolicy) (fallback : Transport) (snapshot : Snapshot)
    (world : World) (server : Server) (account : Text) (raw : Bytes) (answer : Answer)
    (after : Server) : Prop where
  unparsed : ∀ e c, DnsPacket.fromBuffer (fromBytes raw) = .error e c →
    answer.result = .error (.error e.message) ∧ answer.sent = [] ∧
      after.cp.quota = server.cp.quota
  blocked : ∀ packet c, DnsPacket.fromBuffer (fromBytes raw) = .ok packet c →
    Blocked snapshot server world account (Blocking.firstName packet) →
      answer.sent = [] ∧ answer.result = Blocking.synthesize raw policy
  failed : ∀ packet c e, DnsPacket.fromBuffer (fromBytes raw) = .ok packet c →
    QuotaFails snapshot server world account (Blocking.firstName packet) e →
      answer.sent = [] ∧ answer.result = .error e
  forwarded : ∀ packet c, DnsPacket.fromBuffer (fromBytes raw) = .ok packet c →
    ¬ Blocked snapshot server world account (Blocking.firstName packet) →
    (∀ e, ¬ QuotaFails snapshot server world account (Blocking.firstName packet) e) →
      answer.sent = [(transportIn fallback (snapshot.lookup account), raw)] ∧
        answer.result = world.sendRecv (transportIn fallback (snapshot.lookup account)) raw

section

variable {policy : BlockPolicy} {fallback : Transport} {world : World} {server : Server}
  {account : Text} {raw : Bytes} {r : Answer × Server}

/-- A query with a name is judged by the cache. -/
theorem QueryRun.judged (h : QueryRun policy world server account raw r)
    (hpool : server.upstreams.Sound fallback) {qname : Text} (hname : queryName raw = .ok qname) :
    (Blocked server.cache server world account qname →
        r.1.sent = [] ∧ r.1.result = Blocking.synthesize raw policy) ∧
      (∀ e, QuotaFails server.cache server world account qname e →
        r.1.sent = [] ∧ r.1.result = .error e) ∧
      (¬ Blocked server.cache server world account qname →
        (∀ e, ¬ QuotaFails server.cache server world account qname e) →
        r.1.sent = [(transportIn fallback (server.cache.lookup account), raw)] ∧
          r.1.result =
            world.sendRecv (transportIn fallback (server.cache.lookup account)) raw) := by
  cases h with
  | unparsed hname' => rw [hname] at hname'; cases hname'
  | denied hname' hrule haction =>
    cases hname.symm.trans hname'
    simp [blocked_iff hrule, quotaFails_iff hrule, haction]
  | exceeded hname' hrule haction hcharge =>
    cases hname.symm.trans hname'
    simp [blocked_iff hrule, quotaFails_iff hrule, haction, hcharge]
  | failed hname' hrule haction hcharge =>
    cases hname.symm.trans hname'
    simp [blocked_iff hrule, quotaFails_iff hrule, haction, hcharge]
  | @admitted qname rule hname' hrule haction hcharge =>
    cases hname.symm.trans hname'
    have hpool' : ({ server with cp := (server.charge account world.now rule).2 } :
        Server).upstreams.Sound fallback := hpool
    simp [blocked_iff hrule, quotaFails_iff hrule, haction, hcharge, forward_answer hpool']
  | allowed hname' hrule =>
    cases hname.symm.trans hname'
    refine ⟨?_, ?_, fun _ _ => ?_⟩
    · rintro ⟨rule, h, hblock⟩
      simp [hrule rule h] at hblock
    · rintro e ⟨rule, h, haction, -⟩
      simp [hrule rule h] at haction
    · rw [forward_answer hpool]
      exact ⟨rfl, rfl⟩

theorem QueryRun.enforced (h : QueryRun policy world server account raw r)
    (hpool : server.upstreams.Sound fallback) :
    Enforced policy fallback server.cache world server account raw r.1 r.2 where
  unparsed e c hparse := by
    have hname := queryName_of_error hparse
    cases h with
    | unparsed hname' =>
      cases hname.symm.trans hname'
      exact ⟨rfl, rfl, rfl⟩
    | denied hname' | exceeded hname' | failed hname' | admitted hname' | allowed hname' =>
      rw [hname] at hname'
      cases hname'
  blocked _ _ hparse := (h.judged hpool (queryName_of_ok hparse)).1
  failed _ _ e hparse := (h.judged hpool (queryName_of_ok hparse)).2.1 e
  forwarded _ _ hparse := (h.judged hpool (queryName_of_ok hparse)).2.2

end

/-- After every run of management calls, refreshes, index replacements and queries, each query
is enforced against the snapshot of the last successful refresh. -/
theorem run_enforced (policy : BlockPolicy) (fallback : Transport) (is : List Step)
    (world : World) (account : Text) (raw : Bytes) :
    ∃ answer, ((Server.machine policy).step
        ((Server.machine policy).exec (Server.init fallback) is)
        (.handleQuery world account raw)).1 = .answer answer ∧
      Enforced policy fallback (lastSnapshot policy ∅ (Server.init fallback) is) world
        ((Server.machine policy).exec (Server.init fallback) is) account raw answer
        ((Server.machine policy).step
          ((Server.machine policy).exec (Server.init fallback) is)
          (.handleQuery world account raw)).2 := by
  have hcache := cache_eq_lastSnapshot policy is (Server.init fallback)
  refine ⟨_, rfl, ?_⟩
  rw [← show (Server.init fallback).cache = ∅ from rfl, ← hcache]
  exact (handleQuery_run policy world _ account raw).enforced (pool_sound policy fallback is)

/-! ### Denied names -/

/-- What is sent somewhere was not denied under its first name, the empty one without a
question. -/
theorem sent_not_denied {policy : BlockPolicy} {world : World} {server : Server} {account : Text}
    {raw : Bytes} {packet : DnsPacket} {c : BytePacketBuffer}
    (hparse : DnsPacket.fromBuffer (fromBytes raw) = .ok packet c)
    (hsent : (handleQuery policy world server account raw).1.sent ≠ []) :
    decision server.categories (cachedRules (server.cache.lookup account))
      (Blocking.firstName packet) ≠ some .Deny := by
  intro hdeny
  rw [server.decision_eq, Option.map_eq_some_iff] at hdeny
  obtain ⟨rule, hrule, hdecision⟩ := hdeny
  have haction := RuleEngine.decisionOf_deny.mp hdecision
  rw [handleQuery, handleInner, queryName_of_ok hparse] at hsent
  simp only [server.decision_eq, hrule, Option.map_some, hdecision] at hsent
  exact hsent rfl

end

section

attribute [local instance] Text.asciiTables

def nxdomainPolicy : BlockPolicy := ⟨.Nxdomain, Ipv4Addr.UNSPECIFIED, Ipv6Addr.UNSPECIFIED⟩

/-- The clock at 1970-01-01, and transports that echo. -/
def echoWorld : World := ⟨0, fun _ raw => .ok raw⟩

def denyB : NewRule := ⟨.Deny, .Domain, ['b'], none, none, true⟩

def oneAnHour : NewRule := ⟨.Limit, .Domain, ['b'], some 1, some .Hour, true⟩

def askB : Bytes := [0, 7, 1, 0, 0, 1, 0, 0, 0, 0, 0, 0, 1, 98, 0, 0, 1, 0, 1]

def serverDenyingB : Server :=
  (Server.machine nxdomainPolicy).exec (Server.init (.UdpTransport ['u'] 53))
    [.replaceRules ['1'] [denyB], .refresh none]

/-- Two questions, for `a` and for `b`. -/
def twoQuestions : Bytes :=
  [0, 7, 1, 0, 0, 2, 0, 0, 0, 0, 0, 0, 1, 97, 0, 0, 1, 0, 1, 1, 98, 0, 0, 1, 0, 1]

def twoQuestionsPacket : DnsPacket :=
  ⟨DnsHeader.ofFlags 7 1 0 2 0 0 0, [⟨['a'], .A⟩, ⟨['b'], .A⟩], [], [], []⟩

theorem twoQuestions_parse :
    DnsPacket.fromBuffer (fromBytes twoQuestions) = .ok twoQuestionsPacket ⟨twoQuestions, 26⟩ := by
  decide +kernel

theorem twoQuestions_sent :
    (handleQuery nxdomainPolicy echoWorld serverDenyingB ['1'] twoQuestions).1.sent ≠ [] := by
  decide +kernel

theorem sent_not_denied_two_questions :
    decision serverDenyingB.categories (cachedRules (serverDenyingB.cache.lookup ['1'])) ['a'] ≠
      some .Deny :=
  sent_not_denied twoQuestions_parse twoQuestions_sent

/-- Only the first name is looked at: a message that also asks for a denied name goes out. -/
theorem second_question_unchecked :
    ¬ ∀ (policy : BlockPolicy) (world : World) (server : Server) (account : Text) (raw : Bytes)
      (packet : DnsPacket) (c : BytePacketBuffer),
      DnsPacket.fromBuffer (fromBytes raw) = .ok packet c →
      (handleQuery policy world server account raw).1.sent ≠ [] →
      ∀ question ∈ packet.questions,
        decision server.categories (cachedRules (server.cache.lookup account)) question.name ≠
          some .Deny := by
  intro h
  exact h nxdomainPolicy echoWorld serverDenyingB ['1'] twoQuestions twoQuestionsPacket _
    twoQuestions_parse twoQuestions_sent ⟨['b'], .A⟩ (by decide) (by decide +kernel)

end

end Brdns
