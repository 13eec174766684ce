import Brdns.Spec.Http
import Brdns.Spec.Machine
import Brdns.Spec.Postgres

/-! The trait `ControlPlane` with its two implementations, and what runs over either of them:
sequences of its calls, and the server with its policy cache and its pipeline. -/

namespace Brdns

open Lib

/-- What the server uses of a store with state `σ`. -/
structure ControlPlane (σ : Type) extends ManagementStore σ where
  activeUpstream : σ → Text → CplResult (Option Upstream)
  recordQuota : σ → Text → ℤ → ℤ → Window → ℤ → CplResult Bool × σ
  snapshot : σ → CplResult Snapshot

def InMemControlPlane.controlPlane : ControlPlane InMemControlPlane where
  __ := managementStore
  activeUpstream self n := .ok (self.activeUpstream n)
  recordQuota := recordQuota
  snapshot self := .ok self.snapshot

def PostgresControlPlane.managementStore : ManagementStore PostgresControlPlane where
  createAccount := createAccount
  getAccount := getAccount
  rules := PostgresControlPlane.rules
  replaceRules := replaceRules
  listUpstreams := listUpstreams
  replaceUpstreams := replaceUpstreams
  presetUpstreams := presetUpstreams

def PostgresControlPlane.controlPlane : ControlPlane PostgresControlPlane where
  __ := managementStore
  activeUpstream := activeUpstream
  recordQuota := recordQuota
  snapshot := snapshot

/-- The store of a server that starts on an empty database. -/
def PostgresControlPlane.init : PostgresControlPlane := (connect Database.empty).2

namespace ControlPlane

/-! ### Sequences of calls -/

/-- A quota is recorded for the rule at `index` of those stored for the account, under the id the
store gave it. -/
inductive Call where
  | createAccount (accountNumber : Text)
  | getAccount (accountNumber : Text)
  | replaceRules (accountNumber : Text) (news : List NewRule)
  | rules (accountNumber : Text)
  | replaceUpstreams (accountNumber : Text) (news : List NewUpstream)
  | listUpstreams (accountNumber : Text)
  | activeUpstream (accountNumber : Text)
  | recordQuota (accountNumber : Text) (index : ℕ) (limitCount : ℤ) (window : Window) (now : ℤ)
  | snapshot

/-- No quota is recorded where no rule is stored. -/
inductive Result where
  | account (result : CplResult Account)
  | found (result : CplResult (Option Account))
  | rules (result : CplResult (List Rule))
  | upstreams (result : CplResult (List Upstream))
  | upstream (result : CplResult (Option Upstream))
  | recorded (result : Option (CplResult Bool))
  | policies (result : CplResult Snapshot)

section

variable {σ : Type} (store : ControlPlane σ)

def storedRule (self : σ) (n : Text) (index : ℕ) : Option Rule :=
  match store.rules self n with
  | .ok rules => rules[index]?
  | .error _ => none

def call (self : σ) : Call → Result × σ
  | .createAccount n =>
    let (account, self) := store.createAccount self n
    (.account account, self)
  | .getAccount n => (.found (store.getAccount self n), self)
  | .replaceRules n news =>
    let (rules, self) := store.replaceRules self n news
    (.rules rules, self)
  | .rules n => (.rules (store.rules self n), self)
  | .replaceUpstreams n news =>
    let (ups, self) := store.replaceUpstreams self n news
    (.upstreams ups, self)
  | .listUpstreams n => (.upstreams (store.listUpstreams self n), self)
  | .activeUpstream n => (.upstream (store.activeUpstream self n), self)
  | .recordQuota n index limitCount window now =>
    match store.storedRule self n index with
    | none => (.recorded none, self)
    | some rule =>
      let (admitted, self) := store.recordQuota self n rule.id limitCount window now
      (.recorded (some admitted), self)
  | .snapshot => (.policies (store.snapshot self), self)

end

end ControlPlane

/-- How far the sequences of the four tables have moved without leaving a row. -/
structure Gap where
  accounts : ℕ
  rules : ℕ
  upstreams : ℕ
  quotaCounters : ℕ

def Database.skip (self : Database) (gap : Gap) : Database :=
  { self with
    accounts := self.accounts.advance gap.accounts
    rules := self.rules.advance gap.rules
    upstreams := self.upstreams.advance gap.upstreams
    quotaCounters := self.quotaCounters.advance gap.quotaCounters }

/-- Calls of the memory store, which numbers without gaps. -/
def InMemControlPlane.calls : Machine InMemControlPlane (Gap × ControlPlane.Call) ControlPlane.Result :=
  ⟨fun self x => controlPlane.call self x.2⟩

/-- Calls of the Postgres store, each after a gap in the sequences. -/
def PostgresControlPlane.calls :
    Machine PostgresControlPlane (Gap × ControlPlane.Call) ControlPlane.Result :=
  ⟨fun self x => controlPlane.call (self.skip x.1) x.2⟩

/-! ### Reachable states -/

/-- The calls that write accounts, rules, upstreams or counters. -/
inductive ControlPlane.Write where
  | createAccount (accountNumber : Text)
  | replaceRules (accountNumber : Text) (news : List NewRule)
  | replaceUpstreams (accountNumber : Text) (news : List NewUpstream)
  | recordQuota (accountNumber : Text) (ruleId limitCount : ℤ) (window : Window) (now : ℤ)

def ControlPlane.write {σ : Type} (store : ControlPlane σ) (self : σ) : ControlPlane.Write → σ
  | .createAccount n => (store.createAccount self n).2
  | .replaceRules n news => (store.replaceRules self n news).2
  | .replaceUpstreams n news => (store.replaceUpstreams self n news).2
  | .recordQuota n ruleId limitCount window now =>
    (store.recordQuota self n ruleId limitCount window now).2

/-- The databases that servers leave behind, each connecting to what the last one left. -/
inductive PostgresControlPlane.Reachable : PostgresControlPlane → Prop
  | empty : Reachable Database.empty
  | connect {self : Database} : Reachable self → Reachable (connect self).2
  | write {self : PostgresControlPlane} (w : ControlPlane.Write) :
    Reachable self → Reachable (controlPlane.write self w)
  | skip {self : Database} (gap : Gap) : Reachable self → Reachable (self.skip gap)

/-- The states of the memory store under concurrent calls: a critical section is one step, and a
second section has the account that its first one got. -/
inductive InMemControlPlane.Reachable : InMemControlPlane → Prop
  | default : Reachable default
  | getOrCreate {self : InMemControlPlane} (n : Text) :
    Reachable self → Reachable (self.getOrCreate n).2
  | storeRules {self : InMemControlPlane} {n : Text} {account : Account} (news : List NewRule) :
    Reachable self → self.getAccount n = some account →
      Reachable (self.storeRules account n news).2
  | storeUpstreams {self : InMemControlPlane} {n : Text} {account : Account}
      (news : List NewUpstream) :
    Reachable self → self.getAccount n = some account →
      Reachable (self.storeUpstreams account n news).2
  | recordQuota {self : InMemControlPlane} (n : Text) (ruleId limitCount : ℤ) (window : Window)
      (now : ℤ) :
    Reachable self → Reachable (self.recordQuota n ruleId limitCount window now).2
  | replaceCategories {self : InMemControlPlane} (categories : CategoryMap) (now : ℤ) :
    Reachable self → Reachable (self.replaceCategories categories now)

/-! ### The server -/

/-- What the queries of a server share, over any control plane. -/
structure Deployment (σ : Type) where
  cp : σ
  cache : PolicyCache
  categories : CategoryIndex
  upstreams : UpstreamPool

inductive Deployment.Output where
  | account (result : CplResult Account)
  | rules (result : CplResult (List Rule))
  | upstreams (result : CplResult (List Upstream))
  | upstream (result : CplResult (Option Upstream))
  | refreshed (result : CplResult ℕ)
  | replaced
  | answer (answer : Answer)

namespace Deployment

def init {σ : Type} (cp : σ) (fallback : Transport) : Deployment σ :=
  ⟨cp, ∅, ∅, UpstreamPool.new fallback⟩

section

variable {σ : Type} (store : ControlPlane σ) (world : World) (self : Deployment σ)

def forward (cached : Option AccountPolicy) (outcome : Outcome) (rawQuery : Bytes) :
    Answer × Deployment σ :=
  let (arc, upstreams) := Pipeline.transportFor self.upstreams cached
  (⟨outcome, world.sendRecv arc.transport rawQuery, [(arc.transport, rawQuery)]⟩,
    { self with upstreams })

/-- The outcome of `cp.snapshot()` in a refresh step. -/
def snapshotResult : Option Failure → CplResult Snapshot
  | some e => .error e
  | none => store.snapshot self.cp

variable [Text.UnicodeTables] (policy : BlockPolicy)

/-- `Pipeline::handle_inner` over any control plane. -/
def handleInner (account : Text) (rawQuery : Bytes) : Answer × Deployment σ :=
  match Pipeline.queryName rawQuery with
  | .error e => (⟨.Error, .error e, []⟩, self)
  | .ok qname =>
    let cached := self.cache.lookup account
    match Pipeline.decision self.categories (Pipeline.cachedRules cached) qname with
    | some .Deny => (⟨.Deny, Blocking.synthesize rawQuery policy, []⟩, self)
    | some (.Limit ruleId limitCount window) =>
      let (admitted, cp) := store.recordQuota self.cp account ruleId limitCount window world.now
      let self := { self with cp }
      match admitted with
      | .ok true => self.forward world cached .LimitOk rawQuery
      | .ok false => (⟨.LimitExceeded, Blocking.synthesize rawQuery policy, []⟩, self)
      | .error e => (⟨.Error, .error e, []⟩, self)
    | _ => self.forward world cached .Allow rawQuery

def step : Step → Output × Deployment σ
  | .createAccount n =>
    let (account, cp) := store.createAccount self.cp n
    (.account account, { self with cp })
  | .replaceRules n news =>
    let (result, cp) := store.replaceRules self.cp n news
    (.rules result, { self with cp })
  | .replaceUpstreams n news =>
    let (result, cp) := store.replaceUpstreams self.cp n news
    (.upstreams result, { self with cp })
  | .rules n => (.rules (store.rules self.cp n), self)
  | .listUpstreams n => (.upstreams (store.listUpstreams self.cp n), self)
  | .activeUpstream n => (.upstream (store.activeUpstream self.cp n), self)
  | .refresh failure =>
    let (result, cache) := self.cache.refresh (self.snapshotResult store failure)
    (.refreshed result, { self with cache })
  | .replaceIndex map => (.replaced, { self with categories := map })
  | .handleQuery world account rawQuery =>
    let (answer, self) := self.handleInner store world policy account rawQuery
    (.answer answer, self)

def machine : Machine (Deployment σ) Step Output := ⟨fun self => self.step store policy⟩

end

end Deployment

end Brdns
