import Brdns.Lib.Machine
import Brdns.Spec.InMem

/-! Concurrent calls of the in-memory control plane. The mutex makes each critical section one
step. `replace_rules` and `replace_upstreams` have two and release the lock in between, so any
number of calls may wait there while others run. -/

namespace Brdns

open Lib

/-- A call that has got its account and waits for the lock again. -/
inductive Call where
  | replaceRules (account : Account) (accountNumber : Text) (news : List NewRule)
  | replaceUpstreams (account : Account) (accountNumber : Text) (news : List NewUpstream)

namespace Call

def account : Call → Account
  | replaceRules account _ _ | replaceUpstreams account _ _ => account

def accountNumber : Call → Text
  | replaceRules _ n _ | replaceUpstreams _ n _ => n

end Call

/-- The control plane and the calls in the gap. -/
structure Shared where
  cp : InMemControlPlane
  waiting : List Call

inductive Section where
  | createAccount (accountNumber : Text)
  | beginReplaceRules (accountNumber : Text) (news : List NewRule)
  | beginReplaceUpstreams (accountNumber : Text) (news : List NewUpstream)
  /-- The second section of the call at `index` among those that wait. -/
  | finish (index : ℕ)
  | recordQuota (accountNumber : Text) (ruleId limitCount : ℤ) (window : Window) (now : ℤ)
  | getAccount (accountNumber : Text)
  | rules (accountNumber : Text)
  | listUpstreams (accountNumber : Text)
  | activeUpstream (accountNumber : Text)
  | presetUpstreams
  | snapshot

/-- What a section returns; a replace call returns with its second one. -/
inductive Returned where
  /-- the account `get_or_create` returned for the number -/
  | account (accountNumber : Text) (account : Account)
  | replacedRules (accountNumber : Text) (news : List NewRule) (result : CplResult (List Rule))
  | replacedUpstreams (accountNumber : Text) (news : List NewUpstream)
      (result : CplResult (List Upstream))
  | recorded (result : CplResult Bool)
  | found (account : Option Account)
  | rules (rules : List Rule)
  | upstreams (upstreams : List Upstream)
  | upstream (upstream : Option Upstream)
  | policies (snapshot : Snapshot)
  | nothing

namespace Shared

def init : Shared := ⟨InMemControlPlane.default, []⟩

def step (self : Shared) : Section → Returned × Shared
  | .createAccount n =>
    let (account, cp) := self.cp.createAccount n
    (.account n account, { self with cp })
  | .beginReplaceRules n news =>
    let (account, cp) := self.cp.getOrCreate n
    (.account n account, ⟨cp, self.waiting ++ [.replaceRules account n news]⟩)
  | .beginReplaceUpstreams n news =>
    let (account, cp) := self.cp.getOrCreate n
    (.account n account, ⟨cp, self.waiting ++ [.replaceUpstreams account n news]⟩)
  | .finish index =>
    match self.waiting[index]? with
    | none => (.nothing, self)
    | some (.replaceRules account n news) =>
      let (result, cp) := self.cp.storeRules account n news
      (.replacedRules n news result, ⟨cp, self.waiting.eraseIdx index⟩)
    | some (.replaceUpstreams account n news) =>
      let (result, cp) := self.cp.storeUpstreams account n news
      (.replacedUpstreams n news result, ⟨cp, self.waiting.eraseIdx index⟩)
  | .recordQuota n ruleId limitCount window now =>
    let (result, cp) := self.cp.recordQuota n ruleId limitCount window now
    (.recorded result, { self with cp })
  | .getAccount n => (.found (self.cp.getAccount n), self)
  | .rules n => (.rules (self.cp.rules n), self)
  | .listUpstreams n => (.upstreams (self.cp.listUpstreams n), self)
  | .activeUpstream n => (.upstream (self.cp.activeUpstream n), self)
  | .presetUpstreams => (.upstreams self.cp.presetUpstreams, self)
  | .snapshot => (.policies self.cp.snapshot, self)

def machine : Machine Shared Section Returned := ⟨step⟩

end Shared

end Brdns
