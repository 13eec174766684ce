import Brdns.Proofs.Steps

/-! The books of the running program: no query is lost or answered twice, and what the server
exports is what happened since it started. -/

namespace Brdns

open Lib

/-! ### The register -/

/-- The policy that a query goes by: the one it found when it came in. -/
def Runtime.policyOf {σ : Type} (self : Runtime σ) (task : ℕ) (query : Query) :
    Option AccountPolicy :=
  match self.flights.lookup task with
  | some flight => flight.cached
  | none => self.cache.lookup query.account

/-- Since the last start: the queries taken on, the answers given, and the pool that was last asked
for a transport. -/
structure Register where
  taken : List Query
  answered : List (Query × Outcome)
  asked : Option Protocol

namespace Register

def empty : Register := ⟨[], [], none⟩

def take {ω : Type} (self : Register) (query : Query) : Input ω → Register
  | .dot _ _ _ | .doh _ _ _ _ => { self with taken := self.taken ++ [query] }
  | _ => self

def ask {σ : Type} (self : Register) (s : Runtime σ) (task : ℕ) (query : Query) : Register :=
  if ((s.policyOf task query).bind AccountPolicy.upstream).isSome then
    { self with asked := some query.protocol }
  else self

/-- The register after an input, by the state it came in and the reaction to it. -/
def after {σ ω : Type} (self : Register) (s : Runtime σ) (i : Input ω) : Reaction → Register
  | .asks _ query => self.take query i
  | .sends task query _ => (self.take query i).ask s task query
  | .answered _ query outcome _ =>
    let self := self.take query i
    { self with answered := self.answered ++ [(query, outcome)] }
  | .started _ _ => empty
  | _ => self

end Register

/-! ### Counters -/

namespace Metrics

theorem queryLabels_inj {account account' : Text} {protocol protocol' : Protocol}
    {outcome outcome' : Outcome} : queryLabels account protocol outcome =
      queryLabels account' protocol' outcome' ↔
        account = account' ∧ protocol = protocol' ∧ outcome = outcome' := by
  have houtcome : outcome.asStr.toList = outcome'.asStr.toList ↔ outcome = outcome' := by
    cases outcome <;> cases outcome' <;> decide
  have hprotocol : protocol.asStr.toList = protocol'.asStr.toList ↔ protocol = protocol' := by
    cases protocol <;> cases protocol' <;> decide
  unfold queryLabels
  simp only [List.cons.injEq, houtcome, hprotocol, and_true]
  exact and_congr_right fun _ => and_comm

theorem queries_observe (self : Metrics) (account : Text) (protocol : Protocol)
    (outcome : Outcome) : (self.observe account protocol outcome).queries =
      self.queries.inc (queryLabels account protocol outcome) := by
  cases outcome <;> rfl

/-- A query that is recorded moves no gauge. -/
theorem observe_eq (self : Metrics) (account : Text) (protocol : Protocol) (outcome : Outcome) :
    self.observe account protocol outcome = { self with
      queries := (self.observe account protocol outcome).queries
      blocked := (self.observe account protocol outcome).blocked } := by
  cases outcome <;> rfl

theorem blocked_observe (self : Metrics) (account : Text) (protocol : Protocol)
    (outcome : Outcome) : (self.observe account protocol outcome).blocked =
      match outcome with
      | .Deny => self.blocked.inc [account, "deny".toList]
      | .LimitExceeded => self.blocked.inc [account, "limit".toList]
      | _ => self.blocked := by
  cases outcome <;> rfl

end Metrics

/-! ### What register and program have in common -/

section

variable {σ ω : Type}

structure Accounted (r : Register) (s : Runtime σ) : Prop where
  conserved : (r.taken : Multiset Query) = r.answered.map Prod.fst +
    (HashMap.values s.flights).map Flight.query
  queries : ∀ account protocol outcome,
    s.metrics.queries.value (Metrics.queryLabels account protocol outcome) =
      r.answered.countP fun x =>
        x.1.account = account ∧ x.1.protocol = protocol ∧ x.2 = outcome
  denied : ∀ account, s.metrics.blocked.value [account, "deny".toList] =
    r.answered.countP fun x => x.1.account = account ∧ x.2 = .Deny
  exceeded : ∀ account, s.metrics.blocked.value [account, "limit".toList] =
    r.answered.countP fun x => x.1.account = account ∧ x.2 = .LimitExceeded
  policyAccounts : s.metrics.policyAccounts = s.cache.len
  categoryDomains : s.metrics.categoryDomains = s.categories.len
  upstreamTransports : s.metrics.upstreamTransports =
    (r.asked.map fun protocol => (s.pool protocol).cache.len).getD 0

variable {r : Register} {s : Runtime σ}

namespace Accounted

/-- The query that is singled out is answered. -/
theorem finish (h : Accounted r s) {task : ℕ} {query : Query} {taken : List Query}
    (htaken : (taken : Multiset Query) = r.answered.map Prod.fst +
      query ::ₘ (HashMap.values (s.flights.erase task)).map Flight.query)
    (outcome : Outcome) (result : CplResult Bytes) :
    Accounted ⟨taken, r.answered ++ [(query, outcome)], r.asked⟩
      (s.finish task query outcome result).2 := by
  change Accounted _ { s with
    metrics := s.metrics.observe query.account query.protocol outcome
    flights := s.flights.erase task }
  rw [Metrics.observe_eq]
  refine ⟨?_, fun account protocol outcome' => ?_, fun account => ?_, fun account => ?_,
    h.policyAccounts, h.categoryDomains, h.upstreamTransports⟩
  · rw [htaken, List.map_append, ← Multiset.coe_add, add_assoc]
    rfl
  · rw [Metrics.queries_observe, IntCounterVec.value_inc, h.queries, List.countP_append,
      List.countP_singleton]
    simp only [Metrics.queryLabels_inj, decide_eq_true_eq]
    congr 2
    simp only [eq_comm]
  · rw [Metrics.blocked_observe, List.countP_append, List.countP_singleton, ← h.denied]
    cases outcome <;> simp [IntCounterVec.value_inc, eq_comm]
  · rw [Metrics.blocked_observe, List.countP_append, List.countP_singleton, ← h.exceeded]
    cases outcome <;> simp [IntCounterVec.value_inc, eq_comm]

/-- The query that is singled out goes on. -/
theorem goesOn (h : Accounted r s) {task : ℕ} {flight : Flight} {taken : List Query}
    (htaken : (taken : Multiset Query) = r.answered.map Prod.fst +
      flight.query ::ₘ (HashMap.values (s.flights.erase task)).map Flight.query) :
    Accounted { r with taken } { s with flights := s.flights.insert task flight } := by
  refine { h with conserved := ?_ }
  rw [htaken, HashMap.values_replace, Multiset.map_cons]

theorem dispatch (h : Accounted r s) {task : ℕ} {query : Query} {taken : List Query}
    (htaken : (taken : Multiset Query) = r.answered.map Prod.fst +
      query ::ₘ (HashMap.values (s.flights.erase task)).map Flight.query)
    {s₀ : Runtime σ} {cached : Option AccountPolicy} (hcached : s₀.policyOf task query = cached)
    (outcome : Outcome) : Accounted ({ r with taken }.ask s₀ task query)
      (s.dispatch task query cached outcome).2 := by
  have hgoesOn (transport : Transport) : Accounted { r with taken } { s with
      flights := s.flights.insert task ⟨query, cached, .sendRecv outcome transport⟩ } :=
    h.goesOn htaken
  unfold Register.ask Runtime.dispatch Pipeline.transportFor
  rw [hcached]
  cases hup : cached.bind AccountPolicy.upstream with
  | none =>
    dsimp only
    rw [Function.update_eq_self]
    exact hgoesOn _
  | some up =>
    dsimp only
    generalize (s.pool query.protocol).get up = got
    refine { hgoesOn got.1.transport with upstreamTransports := ?_ }
    simp only [Option.isSome_some, ↓reduceIte, Option.map_some, Function.update_self]
    rfl

end Accounted

/-! ### Gauges -/

variable (store : Store σ ω) (setup : Setup)

variable [Text.UnicodeTables]

end

end Brdns
