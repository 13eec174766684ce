import Brdns.Proofs.Enforcement
import Brdns.Spec.Runtime

/-! The ways one step of the running program can go, each with its guards. Every result about runs
of the program is a case analysis of `StepRun`. -/

namespace Brdns

open Lib

inductive Http.Writes {σ : Type} (store : ManagementStore σ) (s : σ) : σ → Prop
  | none : Writes store s s
  | createAccount (n : Text) : Writes store s (store.createAccount s n).2
  | replaceRules (n : Text) (news : List NewRule) : Writes store s (store.replaceRules s n news).2
  | replaceUpstreams (n : Text) (news : List NewUpstream) :
      Writes store s (store.replaceUpstreams s n news).2

theorem Http.handle_writes {σ : Type} (store : ManagementStore σ) (s : σ) (req : Http.Request) :
    Http.Writes store s (Http.handle store s req).2 := by
  cases req with
  | getAccount n | listRules n | listUpstreams n | listPresets => exact .none
  | createAccount body random =>
    cases body with
    | error rejection => exact .none
    | ok n =>
      change Http.Writes store s (Http.createAccount store s n random).2
      unfold Http.createAccount
      cases Http.requestedNumber n random with
      | error e => exact .none
      | ok number =>
        dsimp only
        split_ifs
        · exact .none
        · exact .createAccount number
  | replaceRules n body =>
    cases body with
    | error rejection => exact .none
    | ok news =>
      change Http.Writes store s (Http.replaceRules store s n news).2
      unfold Http.replaceRules
      dsimp only
      split_ifs
      · exact .none
      · exact .replaceRules n news
  | replaceUpstreams n body =>
    cases body with
    | error rejection => exact .none
    | ok news => exact .replaceUpstreams n news

section

variable {σ ω : Type} (store : Store σ ω) (setup : Setup) (s : Runtime σ)

inductive Arrives : Input ω → ℕ → Query → Prop
  | dot {task : ℕ} (sni : Option Text) (raw : Bytes) (hnew : task ∉ s.flights) :
      Arrives (.dot task sni raw) task
        ⟨.dot, resolveAccount setup.server.domain setup.server.fallbackAccount sni, raw⟩
  | doh {task : ℕ} (sni : Option Text) {session : Session (List Bytes)} {unread : List Bytes}
      {raw : Bytes} (hnew : task ∉ s.flights)
      (hquery : DohReceiver.queryOf setup.base64 session unread = .ok raw) :
      Arrives (.doh task sni session unread) task
        ⟨.doh, resolveAccount setup.server.domain setup.server.fallbackAccount sni, raw⟩

def Runtime.ruleFor (query : Query) (qname : Text) : Option Rule :=
  decidingRuleIn s.cache s.categories query.account qname

/-- A rule is found in a policy. -/
theorem isSome_of_ruleFor {s : Runtime σ} {query : Query} {qname : Text} {rule : Rule}
    (h : s.ruleFor query qname = some rule) : (s.cache.lookup query.account).isSome := by
  unfold Runtime.ruleFor decidingRuleIn at h
  cases hcached : s.cache.lookup query.account with
  | some policy => rfl
  | none =>
    rw [hcached] at h
    cases h

/-- What the next part of the snapshot goes on from. -/
inductive Runtime.Fetching : Reading → Prop
  | begins (hpoll : s.poll = .sleeping) : Fetching .accounts
  | goesOn {reading : Reading} (hpoll : s.poll = .refreshing reading)
      (hmore : ∀ result, reading ≠ .done result) : Fetching reading

def Rule.awaited (self : Rule) : Awaited :=
  .recordQuota self.id (self.limitCount.getD 0) (self.limitWindow.getD .Month)

omit s in
theorem start_reaction (cp : σ) (boot : Boot ω) :
    ∃ accounts ingested, (Runtime.start store setup cp boot).1 = .started accounts ingested := by
  unfold Runtime.start
  dsimp only
  split_ifs <;> exact ⟨_, _, rfl⟩

variable [Text.UnicodeTables]

inductive StepRun : Input ω → Reaction × Runtime σ → Prop
  | api (req : Http.Request) :
      StepRun (.api req) (.api (Http.handle store.toManagementStore s.cp req).1,
        { s with cp := (Http.handle store.toManagementStore s.cp req).2 })
  | obtained (n : Text) : StepRun (.obtain n) (.idle, { s with cp := (store.createAccount s.cp n).2 })
  | idle {i : Input ω} (hrestart : ∀ boot, i ≠ .restart boot) : StepRun i (.idle, s)
  | refused {task : ℕ} {sni : Option Text} {session : Session (List Bytes)} {unread : List Bytes}
      {reply : CplResult HttpReply}
      (hquery : DohReceiver.queryOf setup.base64 session unread = .error reply) :
      StepRun (.doh task sni session unread) (.refused reply, s)
  | unparsed {i : Input ω} {task : ℕ} {query : Query} {e : Failure}
      (harrives : Arrives setup s i task query)
      (hname : Pipeline.queryName query.raw = .error e) :
      StepRun i (s.finish task query .Error (.error e))
  | denied {i : Input ω} {task : ℕ} {query : Query} {qname : Text} {rule : Rule}
      (harrives : Arrives setup s i task query) (hname : Pipeline.queryName query.raw = .ok qname)
      (hrule : s.ruleFor query qname = some rule) (haction : rule.action = .Deny) :
      StepRun i (s.finish task query .Deny (Blocking.synthesize query.raw setup.policy))
  | asked {i : Input ω} {task : ℕ} {query : Query} {qname : Text} {rule : Rule}
      (harrives : Arrives setup s i task query) (hname : Pipeline.queryName query.raw = .ok qname)
      (hrule : s.ruleFor query qname = some rule) (haction : rule.action = .Limit) :
      StepRun i (.asks task query, { s with
        flights := s.flights.insert task ⟨query, s.cache.lookup query.account, rule.awaited⟩ })
  | allowed {i : Input ω} {task : ℕ} {query : Query} {qname : Text}
      (harrives : Arrives setup s i task query) (hname : Pipeline.queryName query.raw = .ok qname)
      (hrule : ∀ rule, s.ruleFor query qname = some rule → rule.action = .Allow) :
      StepRun i (s.dispatch task query (s.cache.lookup query.account) .Allow)
  | unreachable {task : ℕ} {query : Query} {cached : Option AccountPolicy} {id n now : ℤ}
      {window : Window} (e : Failure)
      (hflight : s.flights.lookup task = some ⟨query, cached, .recordQuota id n window⟩) :
      StepRun (.recordQuota task (some e) now) (s.finish task query .Error (.error e))
  | admitted {task : ℕ} {query : Query} {cached : Option AccountPolicy} {id n now : ℤ}
      {window : Window} {cp : σ}
      (hflight : s.flights.lookup task = some ⟨query, cached, .recordQuota id n window⟩)
      (hquota : store.recordQuota s.cp query.account id n window now = (.ok true, cp)) :
      StepRun (.recordQuota task none now)
        (({ s with cp } : Runtime σ).dispatch task query cached .LimitOk)
  | exceeded {task : ℕ} {query : Query} {cached : Option AccountPolicy} {id n now : ℤ}
      {window : Window} {cp : σ}
      (hflight : s.flights.lookup task = some ⟨query, cached, .recordQuota id n window⟩)
      (hquota : store.recordQuota s.cp query.account id n window now = (.ok false, cp)) :
      StepRun (.recordQuota task none now) (({ s with cp } : Runtime σ).finish task query
        .LimitExceeded (Blocking.synthesize query.raw setup.policy))
  | failed {task : ℕ} {query : Query} {cached : Option AccountPolicy} {id n now : ℤ}
      {window : Window} {cp : σ} {e : Failure}
      (hflight : s.flights.lookup task = some ⟨query, cached, .recordQuota id n window⟩)
      (hquota : store.recordQuota s.cp query.account id n window now = (.error e, cp)) :
      StepRun (.recordQuota task none now)
        (({ s with cp } : Runtime σ).finish task query .Error (.error e))
  | received {task : ℕ} {query : Query} {cached : Option AccountPolicy} {outcome : Outcome}
      {transport : Transport} (response : CplResult Bytes)
      (hflight : s.flights.lookup task = some ⟨query, cached, .sendRecv outcome transport⟩) :
      StepRun (.received task response) (s.finish task query outcome response)
  | fetched {reading : Reading} (failure : Option Failure) (hfetching : s.Fetching reading) :
      StepRun (.fetch failure) (s.advance store reading failure)
  | installed {snapshot : CplResult Snapshot} (now : ℕ)
      (hpoll : s.poll = .refreshing (.done snapshot)) : StepRun (.install now) (s.install setup now)
  | ingested (net : Blocklist.Network) (world : ω) (now : ℕ) (hpoll : s.poll = .ingesting) :
      StepRun (.ingest net world now) (s.ingest store setup net world now)
  | restarted (boot : Boot ω) :
      StepRun (.restart boot) (Runtime.start store setup (store.connect s.cp) boot)

variable {store setup s}

theorem arrive_run {i : Input ω} {task : ℕ} {query : Query}
    (harrives : Arrives setup s i task query) :
    StepRun store setup s i (s.arrive setup task query) := by
  unfold Runtime.arrive
  cases hname : Pipeline.queryName query.raw with
  | error e => exact .unparsed harrives hname
  | ok qname =>
    have hdecision : Pipeline.decision s.categories
        (Pipeline.cachedRules (s.cache.lookup query.account)) qname =
          (s.ruleFor query qname).map RuleEngine.decisionOf := RuleEngine.evaluate_eq _ _ _
    simp only [hdecision]
    cases hrule : s.ruleFor query qname with
    | none => exact .allowed harrives hname (by simp [hrule])
    | some rule =>
      rw [Option.map_some, RuleEngine.decisionOf]
      cases haction : rule.action with
      | Allow => exact .allowed harrives hname (by simp [hrule, haction])
      | Deny => exact .denied harrives hname hrule haction
      | Limit => exact .asked harrives hname hrule haction

theorem charge_run (task : ℕ) (failure : Option Failure) (now : ℤ) :
    StepRun store setup s (.recordQuota task failure now)
      (s.charge setup store.toControlPlane task failure now) := by
  unfold Runtime.charge
  split
  · next query cached id n window hflight =>
    cases failure with
    | some e => exact .unreachable e hflight
    | none =>
      cases hquota : store.recordQuota s.cp query.account id n window now with
      | mk admitted cp =>
      dsimp only
      rcases admitted with e | _ | _
      · exact .failed hflight hquota
      · exact .exceeded hflight hquota
      · exact .admitted hflight hquota
  · exact .idle fun boot => by simp

theorem step_run (i : Input ω) : StepRun store setup s i (s.step store setup i) := by
  cases i with
  | api req => exact .api req
  | dot task sni raw =>
    change StepRun store setup s _ (s.dot setup task sni raw)
    unfold Runtime.dot
    split_ifs with hnew
    · exact .idle fun boot => by simp
    · exact arrive_run (.dot sni raw hnew)
  | doh task sni session unread =>
    change StepRun store setup s _ (s.doh setup task sni session unread)
    unfold Runtime.doh
    split_ifs with hnew
    · exact .idle fun boot => by simp
    · cases hquery : DohReceiver.queryOf setup.base64 session unread with
      | error reply => exact .refused hquery
      | ok raw => exact arrive_run (.doh sni hnew hquery)
  | recordQuota task failure now => exact charge_run task failure now
  | received task response =>
    change StepRun store setup s _ (s.receive task response)
    unfold Runtime.receive
    split
    · next query cached outcome transport hflight => exact .received response hflight
    · exact .idle fun boot => by simp
  | obtain n => exact .obtained n
  | fetch failure =>
    change StepRun store setup s _ (s.fetch store failure)
    unfold Runtime.fetch
    split
    · next hpoll => exact .fetched failure (.begins hpoll)
    · exact .idle fun boot => by simp
    · next reading hmore hpoll => exact .fetched failure (.goesOn hpoll hmore)
    · exact .idle fun boot => by simp
  | install now =>
    change StepRun store setup s _ (s.install setup now)
    cases hpoll : s.poll with
    | refreshing reading =>
      cases reading with
      | done snapshot => exact .installed now hpoll
      | _ =>
        unfold Runtime.install
        rw [hpoll]
        exact .idle fun boot => by simp
    | sleeping | ingesting =>
      unfold Runtime.install
      rw [hpoll]
      exact .idle fun boot => by simp
  | ingest net world now =>
    change StepRun store setup s _ (s.ingest store setup net world now)
    cases hpoll : s.poll with
    | ingesting => exact .ingested net world now hpoll
    | sleeping | refreshing snapshot =>
      unfold Runtime.ingest
      rw [hpoll]
      exact .idle fun boot => by simp
  | restart boot => exact .restarted boot

end

/-! ### What a run does to the control plane -/

/-- The writes that a running program makes. -/
inductive Store.Writes {σ ω : Type} (store : Store σ ω) (s : σ) : σ → Prop
  | managed {s' : σ} (h : Http.Writes store.toManagementStore s s') : Writes store s s'
  | recordQuota (n : Text) (ruleId limitCount : ℤ) (window : Window) (now : ℤ) :
      Writes store s (store.recordQuota s n ruleId limitCount window now).2
  | replaceCategories {map : CategoryMap} {world : ω} {s' : σ}
      (h : store.replaceCategories s map world = .ok s') : Writes store s s'

theorem Store.ingest_writes {σ ω : Type} (store : Store σ ω) (feeds : List Feed)
    (net : Blocklist.Network) (world : ω) (s : σ) (index : CategoryIndex) :
    store.Writes s (Blocklist.ingest store.toCategoryStore feeds net world s index).2.1 := by
  unfold Blocklist.ingest
  cases net.client with
  | error e => exact .managed .none
  | ok u =>
    dsimp only
    split_ifs
    · exact .managed .none
    · cases hreplaced : store.replaceCategories s (Blocklist.merge feeds net) world with
      | error e => exact .managed .none
      | ok s' => exact .replaceCategories hreplaced

section

variable {σ ω : Type} {store : Store σ ω} {setup : Setup}

theorem start_writes (cp : σ) (boot : Boot ω) :
    store.Writes cp (Runtime.start store setup cp boot).2.cp := by
  unfold Runtime.start
  dsimp only
  split_ifs
  · exact store.ingest_writes _ _ _ _ _
  · exact .managed .none

variable [Text.UnicodeTables]

theorem step_writes {s : Runtime σ} {i : Input ω} (hrestart : ∀ boot, i ≠ .restart boot) :
    store.Writes s.cp (s.step store setup i).2.cp := by
  have hrun : StepRun store setup s i (s.step store setup i) := step_run i
  generalize s.step store setup i = r at hrun ⊢
  cases hrun with
  | api req => exact .managed (Http.handle_writes _ _ _)
  | obtained n => exact .managed (.createAccount n)
  | @admitted task query cached id n now window cp hflight hquota
  | @exceeded task query cached id n now window cp hflight hquota
  | @failed task query cached id n now window cp e hflight hquota =>
    have hwrites : store.Writes s.cp _ := .recordQuota query.account id n window now
    rw [hquota] at hwrites
    exact hwrites
  | installed now hpoll =>
    unfold Runtime.install
    simp only [hpoll]
    exact .managed .none
  | ingested net world now hpoll =>
    unfold Runtime.ingest
    simp only [hpoll]
    exact store.ingest_writes _ _ _ _ _
  | restarted boot => exact absurd rfl (hrestart boot)
  | _ => exact .managed .none

/-- The control plane that a run leaves, from a first start on what `cp` holds. -/
def Runtime.served (store : Store σ ω) (setup : Setup) (cp : σ) (boot : Boot ω)
    (is : List (Input ω)) : σ :=
  ((Runtime.machine store setup).exec
    (Runtime.start store setup (store.connect cp) boot).2 is).cp

/-- What writes and connections keep, a run keeps. -/
theorem run_keeps (I : σ → Prop) (hwrites : ∀ s s', store.Writes s s' → I s → I s')
    (hconnect : ∀ s, I s → I (store.connect s)) {s : Runtime σ} (hs : I s.cp)
    (is : List (Input ω)) : I ((Runtime.machine store setup).exec s is).cp := by
  refine Machine.invariant _ (fun s : Runtime σ => I s.cp) (fun _ => True) (fun s i _ h => ?_) is s
    (fun _ _ => trivial) hs
  by_cases hrestart : ∃ boot, i = .restart boot
  · obtain ⟨boot, rfl⟩ := hrestart
    exact hwrites _ _ (start_writes _ boot) (hconnect _ h)
  · exact hwrites _ _ (step_writes fun boot heq => hrestart ⟨boot, heq⟩) h

end

end Brdns
