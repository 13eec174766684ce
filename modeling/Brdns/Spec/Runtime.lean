import Brdns.Spec.BlocklistTables
import Brdns.Spec.ControlPlane
import Brdns.Spec.DohReceiver
import Brdns.Spec.Metrics
import Brdns.Spec.Router
import Brdns.Spec.Settings

/-! `lib/context.rs` and the tasks that `bin/s.rs` starts: two receivers with a pipeline each, the
management API and the background poll, over one control plane, one policy cache and one category
index. Each input is what one task does between two points where others may run; a query gives way
in `record_quota` and in `send_recv`, a management request after the account it writes for, and a
refresh after every statement of its snapshot. -/

namespace Brdns

open Lib

/-! ### Stores -/

/-- How far a call of `snapshot` has come. -/
abbrev Reading := PostgresControlPlane.Reading

/-- A whole control plane with state `σ`. `read` is what a call of `snapshot` does before it gives
way again, and `connect` what a start finds in what was left. -/
structure Store (σ ω : Type) extends ControlPlane σ, CategoryStore σ ω where
  read : σ → Reading → Reading
  lastIngestion : σ → CplResult (Option ℤ)
  connect : σ → σ

def InMemControlPlane.store : Store InMemControlPlane ℤ where
  __ := controlPlane
  __ := categoryStore
  -- under one lock
  read self _ := .done (.ok self.snapshot)
  lastIngestion self := .ok self.lastIngestion
  connect _ := default

/-- A control plane that is the first part of a state. -/
def ControlPlane.first {σ : Type} (store : ControlPlane σ) (τ : Type) : ControlPlane (σ × τ) where
  createAccount s n := let (r, cp) := store.createAccount s.1 n; (r, cp, s.2)
  getAccount s := store.getAccount s.1
  rules s := store.rules s.1
  replaceRules s n news := let (r, cp) := store.replaceRules s.1 n news; (r, cp, s.2)
  listUpstreams s := store.listUpstreams s.1
  replaceUpstreams s n news := let (r, cp) := store.replaceUpstreams s.1 n news; (r, cp, s.2)
  presetUpstreams s := store.presetUpstreams s.1
  activeUpstream s := store.activeUpstream s.1
  recordQuota s n ruleId limitCount window now :=
    let (r, cp) := store.recordQuota s.1 n ruleId limitCount window now
    (r, cp, s.2)
  snapshot s := store.snapshot s.1

/-- All tables of the migrations: no statement uses those of both parts. -/
def PostgresControlPlane.store :
    Store (PostgresControlPlane × BlocklistTables) (ℤ × BlocklistTables.IterationOrder) where
  __ := controlPlane.first BlocklistTables
  categories s := BlocklistTables.categoryStore.categories s.2
  replaceCategories s map world :=
    (BlocklistTables.categoryStore.replaceCategories s.2 map world).map fun tables => (s.1, tables)
  read s := PostgresControlPlane.read s.1
  lastIngestion s := s.2.lastIngestion
  connect s := ((connect s.1).2, s.2)

/-! ### The state -/

/-- What a receiver hands to its pipeline. -/
structure Query where
  protocol : Protocol
  account : Text
  raw : Bytes
  deriving DecidableEq

/-- The call that a query waits for. -/
inductive Awaited where
  | recordQuota (ruleId limitCount : ℤ) (window : Window)
  | sendRecv (outcome : Outcome) (transport : Transport)
  deriving DecidableEq

/-- A query under way, with the policy it found in the cache. -/
structure Flight where
  query : Query
  cached : Option AccountPolicy
  awaited : Awaited
  deriving DecidableEq

/-- Where the background task is in its loop. -/
inductive Poll where
  | sleeping
  | refreshing (reading : Reading)
  | ingesting

structure Runtime (σ : Type) where
  cp : σ
  cache : PolicyCache
  categories : CategoryIndex
  /-- of the pipeline behind each receiver -/
  pool : Protocol → UpstreamPool
  metrics : Metrics
  /-- by the number of the task that carries it -/
  flights : HashMap ℕ Flight
  poll : Poll
  /-- an instant, in nanoseconds -/
  lastBlocklist : ℕ

/-- The settings that `main` reads, and the transports that the receivers make of theirs. -/
structure Setup where
  server : ServerConfig
  policy : BlockPolicy
  blocklist : BlocklistConfig
  fallback : Protocol → Transport
  base64 : Base64

/-- What a start meets: failures of its calls of the control plane, the feeds, the clock in
seconds and an instant in nanoseconds. -/
structure Boot (ω : Type) where
  snapshot : Option Failure
  categories : Option Failure
  lastIngestion : Option Failure
  net : Blocklist.Network
  world : ω
  now : ℤ
  instant : ℕ

inductive Input (ω : Type) where
  /-- a management request that the token check let through -/
  | api (req : Http.Request)
  /-- the first half of a request that writes for an account: the account is made sure of -/
  | obtain (n : Text)
  /-- one message on a DoT connection, carried by a new task -/
  | dot (task : ℕ) (sni : Option Text) (query : Bytes)
  | doh (task : ℕ) (sni : Option Text) (session : Session (List Bytes)) (unread : List Bytes)
  /-- the control plane fails, or is asked at the given time -/
  | recordQuota (task : ℕ) (failure : Option Failure) (now : ℤ)
  | received (task : ℕ) (response : CplResult Bytes)
  /-- the next part of the snapshot fails or succeeds, the first one when the poll wakes up -/
  | fetch (failure : Option Failure)
  /-- the snapshot goes into the cache, and the clock is read -/
  | install (now : ℕ)
  /-- the feeds are ingested, and the clock is read again -/
  | ingest (net : Blocklist.Network) (world : ω) (now : ℕ)
  /-- the process ends at any point, and another one starts -/
  | restart (boot : Boot ω)

inductive Reaction where
  | api (response : CplResult Http.Response)
  | asks (task : ℕ) (query : Query)
  | sends (task : ℕ) (query : Query) (transport : Transport)
  | answered (task : ℕ) (query : Query) (outcome : Outcome) (result : CplResult Bytes)
  /-- a DoH request without a query -/
  | refused (reply : CplResult HttpReply)
  /-- whether the snapshot is there, `none` while it is under way -/
  | fetched (snapshot : Option (CplResult Unit))
  | installed (accounts : CplResult ℕ)
  | ingested (domains : CplResult ℕ)
  | started (accounts : CplResult ℕ) (ingested : Option (CplResult ℕ))
  /-- nobody waits for this -/
  | idle

/-- A call of the control plane that may fail for a reason of its own. -/
def CplResult.unless {α : Type} (result : CplResult α) : Option Failure → CplResult α
  | some e => .error e
  | none => result

def Metrics.policyRefreshed (self : Metrics) : CplResult ℕ → Metrics
  | .ok n => self.setPolicyAccounts n
  | .error _ => self

def Metrics.categoriesLoaded (self : Metrics) : CplResult ℕ → Metrics
  | .ok n => self.setCategoryDomains n
  | .error _ => self

namespace Runtime

/-! ### Queries -/

section

variable {σ : Type} (self : Runtime σ)

/-- The answer of `handle_inner` goes back, and `handle_query` counts it. -/
def finish (task : ℕ) (query : Query) (outcome : Outcome) (result : CplResult Bytes) :
    Reaction × Runtime σ :=
  (.answered task query outcome result, { self with
    metrics := self.metrics.observe query.account query.protocol outcome
    flights := self.flights.erase task })

/-- `transport_for`, up to the await of `send_recv`. `UpstreamPool::get` sets the gauge, and the
fallback is handed out without it. -/
def dispatch (task : ℕ) (query : Query) (cached : Option AccountPolicy) (outcome : Outcome) :
    Reaction × Runtime σ :=
  let (arc, pool) := Pipeline.transportFor (self.pool query.protocol) cached
  (.sends task query arc.transport, { self with
    pool := Function.update self.pool query.protocol pool
    metrics :=
      if (cached.bind AccountPolicy.upstream).isSome then
        self.metrics.setUpstreamTransports pool.cache.len
      else self.metrics
    flights := self.flights.insert task ⟨query, cached, .sendRecv outcome arc.transport⟩ })

variable [Text.UnicodeTables] (setup : Setup)

/-- `handle_query` up to its first await. -/
def arrive (task : ℕ) (query : Query) : Reaction × Runtime σ :=
  match Pipeline.queryName query.raw with
  | .error e => self.finish task query .Error (.error e)
  | .ok qname =>
    let cached := self.cache.lookup query.account
    match Pipeline.decision self.categories (Pipeline.cachedRules cached) qname with
    | some .Deny => self.finish task query .Deny (Blocking.synthesize query.raw setup.policy)
    | some (.Limit ruleId limitCount window) =>
      (.asks task query, { self with
        flights := self.flights.insert task
          ⟨query, cached, .recordQuota ruleId limitCount window⟩ })
    | _ => self.dispatch task query cached .Allow

def dot (task : ℕ) (sni : Option Text) (query : Bytes) : Reaction × Runtime σ :=
  if task ∈ self.flights then (.idle, self)
  else
    let app : DotApp := ⟨setup.server.domain, setup.server.fallbackAccount⟩
    self.arrive setup task ⟨.dot, app.accountFor sni, query⟩

def doh (task : ℕ) (sni : Option Text) (session : Session (List Bytes)) (unread : List Bytes) :
    Reaction × Runtime σ :=
  if task ∈ self.flights then (.idle, self)
  else
    match DohReceiver.queryOf setup.base64 session unread with
    | .error refusal => (.refused refusal, self)
    | .ok query =>
      self.arrive setup task ⟨.doh, (DohReceiver.mk setup.server).accountFor sni, query⟩

/-- From `record_quota` to the next await. -/
def charge (store : ControlPlane σ) (task : ℕ) (failure : Option Failure) (now : ℤ) :
    Reaction × Runtime σ :=
  match self.flights.lookup task with
  | some ⟨query, cached, .recordQuota ruleId limitCount window⟩ =>
    let (admitted, cp) : CplResult Bool × σ := match failure with
      | some e => (.error e, self.cp)
      | none => store.recordQuota self.cp query.account ruleId limitCount window now
    let self := { self with cp }
    match admitted with
    | .ok true => self.dispatch task query cached .LimitOk
    | .ok false =>
      self.finish task query .LimitExceeded (Blocking.synthesize query.raw setup.policy)
    | .error e => self.finish task query .Error (.error e)
  | _ => (.idle, self)

omit [Text.UnicodeTables] in
/-- `send_recv` returns. -/
def receive (task : ℕ) (response : CplResult Bytes) : Reaction × Runtime σ :=
  match self.flights.lookup task with
  | some ⟨query, _, .sendRecv outcome _⟩ => self.finish task query outcome response
  | _ => (.idle, self)

end

/-! ### The background task -/

section

variable {σ ω : Type} (store : Store σ ω) (setup : Setup) (self : Runtime σ)

/-- The next part of the snapshot. -/
def advance (reading : Reading) (failure : Option Failure) : Reaction × Runtime σ :=
  let reading := match failure with
    | some e => .done (.error e)
    | none => store.read self.cp reading
  let snapshot := match reading with
    | .done result => some (result.map fun _ => ())
    | _ => none
  (.fetched snapshot, { self with poll := .refreshing reading })

def fetch (failure : Option Failure) : Reaction × Runtime σ :=
  match self.poll with
  | .sleeping => self.advance store .accounts failure
  | .refreshing (.done _) => (.idle, self)
  | .refreshing reading => self.advance store reading failure
  | .ingesting => (.idle, self)

def install (now : ℕ) : Reaction × Runtime σ :=
  match self.poll with
  | .refreshing (.done snapshot) =>
    let (accounts, cache) := self.cache.refresh snapshot
    let due := setup.blocklist.enabled &&
      setup.blocklist.interval * 1000000000 ≤ now - self.lastBlocklist
    (.installed accounts, { self with
      cache
      metrics := self.metrics.policyRefreshed accounts
      poll := if due then .ingesting else .sleeping })
  | _ => (.idle, self)

def ingest (net : Blocklist.Network) (world : ω) (now : ℕ) : Reaction × Runtime σ :=
  match self.poll with
  | .ingesting =>
    let (domains, cp, categories) := Blocklist.ingest store.toCategoryStore
      setup.blocklist.ingested net world self.cp self.categories
    (.ingested domains, { self with
      cp, categories
      metrics := self.metrics.categoriesLoaded domains
      poll := .sleeping
      lastBlocklist := now })
  | _ => (.idle, self)

/-! ### The start -/

/-- `i64::saturating_sub`. -/
def saturatingSub (a b : ℤ) : ℤ := max (-2 ^ 63) (min (2 ^ 63 - 1) (a - b))

/-- The feeds were ingested less than an interval ago; `interval as i64` wraps around. -/
def fresh (last : CplResult (Option ℤ)) (now : ℤ) : Bool :=
  match last with
  | .ok (some last) => saturatingSub now last < (setup.blocklist.interval : ℤ).bmod (2 ^ 64)
  | _ => false

/-- `blocklist::load` into an empty index. -/
def loaded (cp : σ) (boot : Boot ω) : CplResult ℕ × CategoryIndex :=
  match boot.categories with
  | some e => (.error e, ∅)
  | none => Blocklist.load store.toCategoryStore cp ∅

/-- `main` up to its tasks, on a control plane that it has connected to. -/
def start (cp : σ) (boot : Boot ω) : Reaction × Runtime σ :=
  let (accounts, cache) := PolicyCache.refresh ∅ (CplResult.unless (store.snapshot cp) boot.snapshot)
  let (domains, categories) := loaded store cp boot
  let started : Runtime σ := {
    cp, cache, categories
    pool := fun protocol => .new (setup.fallback protocol)
    metrics := (Metrics.init.policyRefreshed accounts).categoriesLoaded domains
    flights := ∅
    poll := .sleeping
    lastBlocklist := boot.instant }
  let last := CplResult.unless (store.lastIngestion cp) boot.lastIngestion
  if setup.blocklist.enabled && !fresh setup last boot.now then
    let (domains, cp, categories) := Blocklist.ingest store.toCategoryStore
      setup.blocklist.ingested boot.net boot.world cp categories
    (.started accounts (some domains),
      { started with cp, categories, metrics := started.metrics.categoriesLoaded domains })
  else (.started accounts none, started)

/-! ### Runs -/

variable [Text.UnicodeTables]

def step : Input ω → Reaction × Runtime σ
  | .api req =>
    let (response, cp) := Http.handle store.toManagementStore self.cp req
    (.api response, { self with cp })
  | .obtain n =>
    let (_, cp) := store.createAccount self.cp n
    (.idle, { self with cp })
  | .dot task sni query => self.dot setup task sni query
  | .doh task sni session unread => self.doh setup task sni session unread
  | .recordQuota task failure now => self.charge setup store.toControlPlane task failure now
  | .received task response => self.receive task response
  | .fetch failure => self.fetch store failure
  | .install now => self.install setup now
  | .ingest net world now => self.ingest store setup net world now
  | .restart boot => start store setup (store.connect self.cp) boot

def machine : Machine (Runtime σ) (Input ω) Reaction := ⟨fun self => self.step store setup⟩

/-- The program with its management port: requests there as they come in, and everything else. -/
def exposed (ax : Http.Axum σ) (ext : Http.Extractors) (token : Option Text) :
    Machine (Runtime σ) (Http.Incoming ⊕ Input ω)
      ((Option Http.Handler × CplResult Http.Reply) ⊕ Reaction) where
  step self
    | .inl req =>
      let state : Http.ApiState σ := ⟨store.toManagementStore, token⟩
      let out := ax.call (Http.router ax ext state) req self.cp
      (.inl (out.reached, out.answer), { self with cp := out.state })
    | .inr i =>
      let (reaction, self) := self.step store setup i
      (.inr reaction, self)

end

end Runtime

end Brdns
