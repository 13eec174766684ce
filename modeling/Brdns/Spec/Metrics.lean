import Brdns.Spec.Pipeline

/-! `lib/observability/metrics.rs`: the counters and gauges that the server exports. The histogram
of latencies is left out. -/

namespace Brdns

open Lib

/-- The two entry points, `"dot"` and `"doh"` in the labels. -/
inductive Protocol where
  | dot
  | doh
  deriving DecidableEq

def Protocol.asStr : Protocol → String
  | .dot => "dot"
  | .doh => "doh"

def Outcome.asStr : Outcome → String
  | .Allow => "allow"
  | .Deny => "deny"
  | .LimitOk => "limit_ok"
  | .LimitExceeded => "limit_exceeded"
  | .Error => "error"

/-- Counters by the values of their labels; one that was never touched stands at zero. -/
abbrev IntCounterVec := HashMap (List Text) ℕ

namespace IntCounterVec

def value (self : IntCounterVec) (labels : List Text) : ℕ := (self.lookup labels).getD 0

/-- `with_label_values(labels).inc()`. -/
def inc (self : IntCounterVec) (labels : List Text) : IntCounterVec :=
  self.insert labels (self.value labels + 1)

theorem value_inc (self : IntCounterVec) (labels labels' : List Text) :
    (self.inc labels).value labels' =
      self.value labels' + if labels' = labels then 1 else 0 := by
  unfold inc value
  rw [HashMap.lookup_insert]
  split_ifs with h
  · rw [h]
    rfl
  · rfl

end IntCounterVec

structure Metrics where
  /-- by account, action and protocol -/
  queries : IntCounterVec
  /-- by account and reason -/
  blocked : IntCounterVec
  categoryDomains : ℕ
  policyAccounts : ℕ
  upstreamTransports : ℕ

namespace Metrics

def init : Metrics := ⟨∅, ∅, 0, 0, 0⟩

def queryLabels (account : Text) (protocol : Protocol) (outcome : Outcome) : List Text :=
  [account, outcome.asStr.toList, protocol.asStr.toList]

def recordQuery (self : Metrics) (account : Text) (protocol : Protocol) (outcome : Outcome) :
    Metrics :=
  { self with queries := self.queries.inc (queryLabels account protocol outcome) }

def recordBlocked (self : Metrics) (account : Text) (reason : String) : Metrics :=
  { self with blocked := self.blocked.inc [account, reason.toList] }

def setCategoryDomains (self : Metrics) (n : ℕ) : Metrics := { self with categoryDomains := n }

def setPolicyAccounts (self : Metrics) (n : ℕ) : Metrics := { self with policyAccounts := n }

def setUpstreamTransports (self : Metrics) (n : ℕ) : Metrics :=
  { self with upstreamTransports := n }

/-- What `handle_query` records of a query that `handle_inner` has dealt with. -/
def observe (self : Metrics) (account : Text) (protocol : Protocol) (outcome : Outcome) :
    Metrics :=
  let self := self.recordQuery account protocol outcome
  match outcome with
  | .Deny => self.recordBlocked account "deny"
  | .LimitExceeded => self.recordBlocked account "limit"
  | _ => self

end Metrics

end Brdns
