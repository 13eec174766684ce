import Brdns.Proofs.Enforcement
import Brdns.Spec.ControlPlane

/-! The server over any control plane: over the memory store it is the server of the other
results, and a query that a limit decides on goes as its charge goes. -/

namespace Brdns

open Lib BytePacketBuffer

/-! ### Over the memory store -/

def Server.deployed (self : Server) : Deployment InMemControlPlane :=
  ⟨self.cp, self.cache, self.categories, self.upstreams⟩

def Output.deployed : Output → Deployment.Output
  | .account x => .account (.ok x)
  | .rules x => .rules x
  | .upstreams x => .upstreams x
  | .upstream x => .upstream (.ok x)
  | .refreshed x => .refreshed x
  | .replaced => .replaced
  | .answer x => .answer x

section

open InMemControlPlane

variable [Text.UnicodeTables] (policy : BlockPolicy)

theorem handleInner_deployed (world : World) (s : Server) (account : Text) (raw : Bytes) :
    s.deployed.handleInner controlPlane world policy account raw =
      ((Pipeline.handleInner policy world s account raw).1,
        (Pipeline.handleInner policy world s account raw).2.deployed) := by
  unfold Deployment.handleInner Pipeline.handleInner
  cases Pipeline.queryName raw with
  | error e => rfl
  | ok qname =>
    cases hdecision : Pipeline.decision s.categories
      (Pipeline.cachedRules (s.cache.lookup account)) qname with
    | none =>
      simp only [Server.deployed, hdecision]
      rfl
    | some decision =>
      cases decision with
      | Allow =>
        simp only [Server.deployed, hdecision]
        rfl
      | Deny => simp only [Server.deployed, hdecision]
      | Limit ruleId limitCount window =>
        cases hcharge : s.cp.recordQuota account ruleId limitCount window world.now with
        | mk admitted cp =>
          simp only [Server.deployed, hdecision, controlPlane, hcharge]
          rcases admitted with e | (_ | _) <;> rfl

/-- The server of the other results is the one over the memory store. -/
theorem step_deployed (s : Server) (i : Step) : s.deployed.step controlPlane policy i =
    ((s.step policy i).1.deployed, (s.step policy i).2.deployed) := by
  cases i with
  | handleQuery world account raw =>
    have hquery := handleInner_deployed policy world s account raw
    unfold Deployment.step
    simp only [hquery]
    rfl
  | refresh failure => cases failure <;> rfl
  | _ => rfl

theorem exec_deployed (s : Server) (is : List Step) :
    (Deployment.machine controlPlane policy).exec s.deployed is =
      ((Server.machine policy).exec s is).deployed := by
  induction is generalizing s with
  | nil => rfl
  | cons i is ih =>
    rw [Machine.exec_cons, Machine.exec_cons, ← ih]
    exact congrArg (fun x => (Deployment.machine controlPlane policy).exec x is)
      (congrArg Prod.snd (step_deployed policy s i))

end

namespace Deployment

variable [Text.UnicodeTables]

def Served (policy : BlockPolicy) (world : World) (raw : Bytes) (answer : Answer) : Prop :=
  (∃ transport, answer = ⟨.LimitOk, world.sendRecv transport raw, [(transport, raw)]⟩) ∨
    answer = ⟨.LimitExceeded, Blocking.synthesize raw policy, []⟩

/-- A query that a limit decides on is served when its charge is not refused. -/
theorem served_iff_charged {σ : Type} (store : ControlPlane σ) {policy : BlockPolicy}
    {world : World} {s : Deployment σ} {account qname : Text} {raw : Bytes} {rule : Rule}
    (hname : Pipeline.queryName raw = .ok qname)
    (hrule : decidingRuleIn s.cache s.categories account qname = some rule)
    (hlimit : rule.action = .Limit) :
    Served policy world raw (s.handleInner store world policy account raw).1 ↔
      ∃ admitted, (store.recordQuota s.cp account rule.id (rule.limitCount.getD 0)
        (rule.limitWindow.getD .Month) world.now).1 = .ok admitted := by
  have hdecision : Pipeline.decision s.categories
      (Pipeline.cachedRules (s.cache.lookup account)) qname =
        some (.Limit rule.id (rule.limitCount.getD 0) (rule.limitWindow.getD .Month)) := by
    unfold decidingRuleIn at hrule
    rw [Pipeline.decision, RuleEngine.evaluate_eq, hrule, Option.map_some, RuleEngine.decisionOf,
      hlimit]
  cases hcharge : store.recordQuota s.cp account rule.id (rule.limitCount.getD 0)
    (rule.limitWindow.getD .Month) world.now with
  | mk result cp =>
  rw [handleInner, hname]
  simp only [hdecision, hcharge]
  cases result with
  | error e =>
    refine iff_of_false ?_ (by simp)
    rintro (⟨transport, hanswer⟩ | hanswer) <;> cases hanswer
  | ok admitted =>
    refine iff_of_true ?_ ⟨admitted, rfl⟩
    cases admitted with
    | true => exact .inl ⟨_, rfl⟩
    | false => exact .inr rfl

/-- The memory store keeps its counters apart from the rules: what a limit decides on is served,
whether the rule is still stored or not, unless the clock has no window. -/
theorem memory_query_served_iff {policy : BlockPolicy} {world : World}
    {s : Deployment InMemControlPlane} {account qname : Text} {raw : Bytes} {rule : Rule}
    (hname : Pipeline.queryName raw = .ok qname)
    (hrule : decidingRuleIn s.cache s.categories account qname = some rule)
    (hlimit : rule.action = .Limit) :
    Served policy world raw
        (s.handleInner InMemControlPlane.controlPlane world policy account raw).1 ↔
      rule.limitCount.getD 0 ≤ 0 ∨ ∃ windowStart,
        Quota.windowStart world.now (rule.limitWindow.getD .Month) = .ok windowStart := by
  rw [served_iff_charged InMemControlPlane.controlPlane hname hrule hlimit]
  change (∃ admitted, (s.cp.recordQuota account rule.id _ _ world.now).1 = .ok admitted) ↔ _
  unfold InMemControlPlane.recordQuota
  split_ifs with hzero
  · exact iff_of_true ⟨false, rfl⟩ (.inl hzero)
  · rw [or_iff_right hzero]
    cases Quota.windowStart world.now (rule.limitWindow.getD .Month) with
    | error e => simp
    | ok windowStart =>
      refine iff_of_true ?_ ⟨windowStart, rfl⟩
      dsimp only
      split_ifs <;> exact ⟨_, rfl⟩

end Deployment

end Brdns
