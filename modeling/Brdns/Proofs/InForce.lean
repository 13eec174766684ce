import Brdns.Proofs.Ingest
import Brdns.Proofs.Readings

/-! The policy in force. A docket beside a run keeps the book of what the management API accepted,
what the parts of the last snapshot saw of it, and under what each query arrived. Whatever runs
between the awaits of a query, it is judged by the lists that were in force when it came in. -/

namespace Brdns

open Lib

/-! ### Judging by what was submitted -/

def NewRule.covers (self : NewRule) (categories : CategoryIndex) (qname : Text) : Bool :=
  match self.targetType with
  | .Category => categories.contains qname self.targetValue
  | _ => RuleEngine.matchesTarget qname self.targetType self.targetValue

def NewUpstream.transport (self : NewUpstream) : Transport :=
  match self.protocol with
  | .Dot => .DotTransport self.host self.port
  | .Doh => .DohTransport self.host self.port self.addr
  | .Udp => .UdpTransport self.host self.port

namespace Submission

def ruleFor (self : Submission) (categories : CategoryIndex) (qname : Text) : Option NewRule :=
  self.rules.find? fun rule => rule.enabled && rule.covers categories qname

def transport (self : Submission) (fallback : Transport) : Transport :=
  (self.upstreams.head?.map NewUpstream.transport).getD fallback

end Submission

theorem firstMatch_submitted (categories : CategoryIndex) (qname : Text) (rules : List Rule) :
    (RuleEngine.firstMatch qname (fun cat => categories.contains qname cat) rules).map
        Rule.submitted =
      (rules.map Rule.submitted).find? fun rule => rule.enabled && rule.covers categories qname := by
  rw [List.find?_map]
  refine congrArg (Option.map Rule.submitted) (congrArg (List.find? · rules) (funext fun rule => ?_))
  unfold RuleEngine.ruleMatches NewRule.covers
  rfl

theorem Submission.Stands.transport_eq {policy : Submission} {cached : Option AccountPolicy}
    (h : policy.Stands cached) (fallback : Transport) :
    Pipeline.transportIn fallback cached = policy.transport fallback := by
  unfold Pipeline.transportIn Submission.transport
  rw [← h.upstream, Option.map_map]
  rfl

/-! ### Cases -/

/-- What governs one query: what was submitted for its account, the category index, and what has
been sent for it. -/
structure Case where
  policy : Submission
  categories : CategoryIndex
  sent : List (Transport × Bytes)

namespace Case

/-- The policy lets the query out with that outcome. -/
def Lets (self : Case) (qname : Text) : Outcome → Prop
  | .Allow => ∀ rule, self.policy.ruleFor self.categories qname = some rule → rule.action = .Allow
  | .LimitOk => ∃ rule, self.policy.ruleFor self.categories qname = some rule ∧
      rule.action = .Limit
  | _ => False

def transport (self : Case) (setup : Setup) (query : Query) : Transport :=
  self.policy.transport (setup.fallback query.protocol)

variable [Text.UnicodeTables]

/-- The answers that the case of a query allows. A query is forwarded once, and nothing is ever
sent for one that is not. -/
inductive Allows (self : Case) (setup : Setup) (query : Query) : Outcome → CplResult Bytes → Prop
  | unparsed {e : Failure} (hname : Pipeline.queryName query.raw = .error e)
      (hsent : self.sent = []) : Allows self setup query .Error (.error e)
  | denied {qname : Text} {rule : NewRule} (hname : Pipeline.queryName query.raw = .ok qname)
      (hrule : self.policy.ruleFor self.categories qname = some rule) (haction : rule.action = .Deny)
      (hsent : self.sent = []) :
      Allows self setup query .Deny (Blocking.synthesize query.raw setup.policy)
  | exceeded {qname : Text} (hname : Pipeline.queryName query.raw = .ok qname)
      (hlimit : self.Lets qname .LimitOk) (hsent : self.sent = []) :
      Allows self setup query .LimitExceeded (Blocking.synthesize query.raw setup.policy)
  | uncounted {qname : Text} {e : Failure} (hname : Pipeline.queryName query.raw = .ok qname)
      (hlimit : self.Lets qname .LimitOk) (hsent : self.sent = []) :
      Allows self setup query .Error (.error e)
  | forwarded {qname : Text} {outcome : Outcome} (response : CplResult Bytes)
      (hname : Pipeline.queryName query.raw = .ok qname) (hlets : self.Lets qname outcome)
      (hsent : self.sent = [(self.transport setup query, query.raw)]) :
      Allows self setup query outcome response

def LetsOut (self : Case) (setup : Setup) (query : Query) (transport : Transport) : Prop :=
  ∃ qname outcome, Pipeline.queryName query.raw = .ok qname ∧ self.Lets qname outcome ∧
    transport = self.transport setup query ∧ self.sent = []

/-- What the case of a query under way has come to. -/
def Awaits (self : Case) (setup : Setup) (query : Query) : Awaited → Prop
  | .recordQuota _ _ _ => ∃ qname, Pipeline.queryName query.raw = .ok qname ∧
      self.Lets qname .LimitOk ∧ self.sent = []
  | .sendRecv outcome _ => ∃ qname, Pipeline.queryName query.raw = .ok qname ∧
      self.Lets qname outcome ∧ self.sent = [(self.transport setup query, query.raw)]

end Case

/-! ### The docket -/

structure Docket where
  accepted : Book NewRule NewUpstream
  /-- by the parts of the last snapshot -/
  views : List (View NewRule NewUpstream)
  inForce : Book NewRule NewUpstream
  cases : HashMap ℕ Case

namespace Docket

def opened (accepted : Book NewRule NewUpstream) (accounts : CplResult ℕ) : Docket :=
  ⟨accepted, [], if accounts.isOk then accepted else Book.empty, ∅⟩

variable {σ ω : Type} (self : Docket) (s : Runtime σ)

/-- What the parts of the snapshot under way have seen. -/
def seen : List (View NewRule NewUpstream) :=
  match s.poll with
  | .refreshing _ => self.views
  | _ => []

/-- The case of a query, a new one if it has just come in. -/
def caseOf (task : ℕ) (query : Query) : Case :=
  (self.cases.lookup task).getD ⟨self.inForce query.account, s.categories, []⟩

def heard : Reaction → Docket
  | .asks task query => { self with cases := self.cases.insert task (self.caseOf s task query) }
  | .sends task query transport =>
    let c := self.caseOf s task query
    { self with
      cases := self.cases.insert task { c with sent := c.sent ++ [(transport, query.raw)] } }
  | .answered task _ _ _ => { self with cases := self.cases.erase task }
  | _ => self

/-- The docket after an input: it sees the state before and the reaction. -/
def after (store : ManagementStore σ) (kind : StoreKind) : Input ω → Reaction → Docket
  | .api req, .api response => { self with accepted := self.accepted.answered req response }
  | .fetch _, .fetched _ =>
    { self with views := self.seen s ++ [⟨store.listed s.cp, self.accepted⟩] }
  | .install _, .installed accounts =>
    { self with inForce := if accounts.isOk then kind.assemble self.views else self.inForce }
  | .restart _, .started accounts _ =>
    opened (if kind.durable then self.accepted else .empty) accounts
  | _, reaction => self.heard s reaction

variable [Text.UnicodeTables] (setup : Setup)

def Approves (i : Input ω) : Reaction → Prop
  | .asks task query => (self.caseOf s task query).sent = []
  | .sends task query transport => (self.caseOf s task query).LetsOut setup query transport
  | .answered task query outcome result =>
    (self.caseOf s task query).Allows setup query outcome result ∧
      ∀ task' response, i = .received task' response → result = response
  | _ => True

end Docket

/-! ### What docket and program have in common -/

section

variable {σ ω : Type} [Text.UnicodeTables]

structure Ruled (store : Store σ ω) (setup : Setup) (Good : σ → Prop)
    (Seen : σ → List (View Rule Upstream) → Reading → Prop) (d : Docket) (s : Runtime σ) : Prop where
  good : Good s.cp
  accepted : store.book s.cp = d.accepted
  views : ∀ reading, s.poll = .refreshing reading →
    ∃ views, Seen s.cp views reading ∧ d.views = views.map View.submitted
  inForce : d.inForce.Governs s.cache
  pool : ∀ protocol, (s.pool protocol).Sound (setup.fallback protocol)
  arrived : ∀ task, s.flights.lookup task = none → d.cases.lookup task = none
  cases : ∀ task flight, s.flights.lookup task = some flight →
    ∃ c, d.cases.lookup task = some c ∧ c.policy.Stands flight.cached ∧
      c.Awaits setup flight.query flight.awaited

variable {store : Store σ ω} {setup : Setup} {Good : σ → Prop}
  {Seen : σ → List (View Rule Upstream) → Reading → Prop} {d : Docket} {s : Runtime σ}

namespace Ruled

/-- A new query is judged by what is in force. -/
theorem caseOf_new (h : Ruled store setup Good Seen d s) {i : Input ω} {task : ℕ} {query : Query}
    (harrives : Arrives setup s i task query) :
    d.caseOf s task query = ⟨d.inForce query.account, s.categories, []⟩ := by
  have hnew : task ∉ s.flights := by cases harrives <;> assumption
  unfold Docket.caseOf
  rw [h.arrived task (Finmap.lookup_eq_none.mpr hnew)]
  rfl

/-- The rule that decides is the one that was submitted. -/
theorem ruleFor_submitted (h : Ruled store setup Good Seen d s) (query : Query) (qname : Text) :
    (s.ruleFor query qname).map Rule.submitted =
      Submission.ruleFor (d.inForce query.account) s.categories qname := by
  unfold Runtime.ruleFor decidingRuleIn Submission.ruleFor
  rw [firstMatch_submitted, (h.inForce query.account).rules]

/-- A change that the cases do not see. -/
theorem frame (h : Ruled store setup Good Seen d s) {s' : Runtime σ} (hgood : Good s'.cp)
    (hshelves : store.shelves s'.cp = store.shelves s.cp)
    (hviews : ∀ reading, s'.poll = .refreshing reading →
      ∃ views, Seen s'.cp views reading ∧ d.views = views.map View.submitted)
    (hcache : s'.cache = s.cache) (hpool : ∀ protocol, (s'.pool protocol).Sound (setup.fallback protocol))
    (hflights : s'.flights = s.flights) : Ruled store setup Good Seen d s' where
  good := hgood
  accepted := (congrArg Shelves.submitted hshelves).trans h.accepted
  views := hviews
  inForce := hcache ▸ h.inForce
  pool := hpool
  arrived := hflights ▸ h.arrived
  cases := hflights ▸ h.cases

/-- The cases along with a query that goes on. -/
theorem goesOn (h : Ruled store setup Good Seen d s) {task : ℕ} {flight : Flight} {c : Case}
    (hstands : c.policy.Stands flight.cached)
    (hawaits : c.Awaits setup flight.query flight.awaited) :
    Ruled store setup Good Seen { d with cases := d.cases.insert task c }
      { s with flights := s.flights.insert task flight } := by
  refine ⟨h.good, h.accepted, h.views, h.inForce, h.pool, fun task' hnone => ?_,
    fun task' flight' hflight => ?_⟩
  · rw [HashMap.lookup_insert] at hnone ⊢
    split_ifs at hnone ⊢ with htask
    exact h.arrived task' hnone
  · rw [HashMap.lookup_insert] at hflight ⊢
    split_ifs at hflight ⊢ with htask
    · cases hflight
      exact ⟨c, rfl, hstands, hawaits⟩
    · exact h.cases task' flight' hflight

theorem ruleFor_of_some (h : Ruled store setup Good Seen d s) {query : Query} {qname : Text}
    {rule : Rule} (hrule : s.ruleFor query qname = some rule) :
    Submission.ruleFor (d.inForce query.account) s.categories qname = some rule.submitted := by
  rw [← h.ruleFor_submitted, hrule, Option.map_some]

/-- A write leaves what the parts of the snapshot have seen. -/
theorem views_written (h : Ruled store setup Good Seen d s) {Fits : List NewRule → Prop}
    {kind : StoreKind} (hstore : store.OfKind kind Good Fits Seen) {cp : σ}
    (hwrites : store.Writes s.cp cp) (reading : Reading) (hpoll : s.poll = .refreshing reading) :
    ∃ views, Seen cp views reading ∧ d.views = views.map View.submitted := by
  obtain ⟨views, hseen, hviews⟩ := h.views reading hpoll
  exact ⟨views, hstore.writes _ _ _ _ hwrites hseen, hviews⟩

theorem charged (h : Ruled store setup Good Seen d s) {Fits : List NewRule → Prop}
    {kind : StoreKind} (hstore : store.OfKind kind Good Fits Seen) {n : Text}
    {id limitCount now : ℤ} {window : Window} {result : CplResult Bool} {cp : σ}
    (hquota : store.recordQuota s.cp n id limitCount window now = (result, cp)) :
    Ruled store setup Good Seen d { s with cp } := by
  obtain ⟨hgood, hshelves⟩ := hstore.recordQuota s.cp n id limitCount window now h.good
  rw [hquota] at hgood hshelves
  have hwrites : store.Writes s.cp _ := .recordQuota n id limitCount window now
  rw [hquota] at hwrites
  exact h.frame hgood hshelves (h.views_written hstore hwrites) rfl h.pool rfl

theorem finish (h : Ruled store setup Good Seen d s) (task : ℕ) (query : Query) (outcome : Outcome)
    (result : CplResult Bytes) :
    Ruled store setup Good Seen (d.heard s (s.finish task query outcome result).1)
      (s.finish task query outcome result).2 := by
  refine ⟨h.good, h.accepted, h.views, h.inForce, h.pool, fun task' hnone => ?_,
    fun task' flight hflight => ?_⟩
  · change (d.cases.erase task).lookup task' = none
    change (s.flights.erase task).lookup task' = none at hnone
    rw [HashMap.lookup_erase] at hnone ⊢
    split_ifs at hnone ⊢ with htask
    · rfl
    · exact h.arrived task' hnone
  · change ∃ c, (d.cases.erase task).lookup task' = some c ∧ _
    change (s.flights.erase task).lookup task' = some flight at hflight
    rw [HashMap.lookup_erase] at hflight ⊢
    split_ifs at hflight ⊢ with htask
    exact h.cases task' flight hflight

/-- What `transport_for` hands out. -/
theorem transportFor_transport (h : Ruled store setup Good Seen d s) (protocol : Protocol)
    {policy : Submission} {cached : Option AccountPolicy} (hstands : policy.Stands cached) :
    (Pipeline.transportFor (s.pool protocol) cached).1.transport =
      policy.transport (setup.fallback protocol) :=
  (Pipeline.transportFor_transport (h.pool protocol) cached).trans (hstands.transport_eq _)

theorem dispatch (h : Ruled store setup Good Seen d s) {task : ℕ} {query : Query}
    {cached : Option AccountPolicy} {outcome : Outcome} {qname : Text}
    (hstands : (d.caseOf s task query).policy.Stands cached)
    (hname : Pipeline.queryName query.raw = .ok qname)
    (hlets : (d.caseOf s task query).Lets qname outcome)
    (hsent : (d.caseOf s task query).sent = []) (i : Input ω) :
    d.Approves s setup i (s.dispatch task query cached outcome).1 ∧
      Ruled store setup Good Seen (d.heard s (s.dispatch task query cached outcome).1)
        (s.dispatch task query cached outcome).2 := by
  have htransport := h.transportFor_transport query.protocol hstands
  refine ⟨⟨qname, outcome, hname, hlets, htransport, hsent⟩, ?_⟩
  have hpool : ∀ protocol, (Function.update s.pool query.protocol
      (Pipeline.transportFor (s.pool query.protocol) cached).2 protocol).Sound
        (setup.fallback protocol) := by
    intro protocol
    rw [Function.update_apply]
    split_ifs with heq
    · subst heq
      exact Pipeline.transportFor_sound (h.pool _) cached
    · exact h.pool protocol
  have hdispatched : Ruled store setup Good Seen d { s with
      pool := Function.update s.pool query.protocol
        (Pipeline.transportFor (s.pool query.protocol) cached).2
      metrics := (s.dispatch task query cached outcome).2.metrics } :=
    h.frame h.good rfl h.views rfl hpool rfl
  refine hdispatched.goesOn hstands ⟨qname, hname, hlets, ?_⟩
  change (d.caseOf s task query).sent ++
      [((Pipeline.transportFor (s.pool query.protocol) cached).1.transport, query.raw)] =
    [((d.caseOf s task query).policy.transport (setup.fallback query.protocol), query.raw)]
  rw [hsent, htransport, List.nil_append]

/-- What the case of a query under way is. -/
theorem caseOf_flight (h : Ruled store setup Good Seen d s) {task : ℕ} {flight : Flight}
    (hflight : s.flights.lookup task = some flight) (query : Query) :
    (d.caseOf s task query).policy.Stands flight.cached ∧
      (d.caseOf s task query).Awaits setup flight.query flight.awaited := by
  obtain ⟨c, hcase, hstands, hawaits⟩ := h.cases task flight hflight
  unfold Docket.caseOf
  rw [hcase]
  exact ⟨hstands, hawaits⟩

end Ruled

omit [Text.UnicodeTables] in
theorem Docket.after_of_arrives {i : Input ω} {task : ℕ} {query : Query}
    (harrives : Arrives setup s i task query) (kind : StoreKind) (reaction : Reaction) :
    d.after s store.toManagementStore kind i reaction = d.heard s reaction := by
  cases harrives <;> rfl

omit [Text.UnicodeTables] in
theorem not_received_of_arrives {i : Input ω} {task : ℕ} {query : Query}
    (harrives : Arrives setup s i task query) (task' : ℕ) (response : CplResult Bytes) :
    i ≠ .received task' response := by
  cases harrives <;> simp

/-- One more part of the snapshot. -/
theorem Ruled.fetched (h : Ruled store setup Good Seen d s) {Fits : List NewRule → Prop}
    {kind : StoreKind} (hstore : store.OfKind kind Good Fits Seen) (failure : Option Failure)
    {reading : Reading} (hfetching : s.Fetching reading) :
    Ruled store setup Good Seen
      { d with views := d.seen s ++ [⟨store.listed s.cp, d.accepted⟩] }
      (s.advance store reading failure).2 := by
  refine { h with views := fun reading' hpoll => ?_ }
  cases hpoll
  have hread : ∀ result, reading ≠ .done result := by
    cases hfetching with
    | begins hpoll => exact fun result => by simp
    | goesOn hpoll hmore => exact hmore
  have hseen : ∃ views, Seen s.cp views reading ∧ d.seen s = views.map View.submitted := by
    unfold Docket.seen
    cases hfetching with
    | begins hpoll =>
      rw [hpoll]
      exact ⟨[], hstore.begins s.cp, rfl⟩
    | goesOn hpoll hmore =>
      rw [hpoll]
      exact h.views reading hpoll
  obtain ⟨views, hseen, hviews⟩ := hseen
  refine ⟨views ++ [store.view s.cp], ?_, ?_⟩
  · cases failure with
    | some e => exact hstore.failed _ _ e
    | none => exact hstore.read s.cp _ reading h.good hread hseen
  · rw [hviews, ← h.accepted, List.map_append]
    rfl

omit [Text.UnicodeTables] in
/-- A snapshot that was taken stands for the book that the store had. -/
theorem governs_unless {Fits : List NewRule → Prop} {kind : StoreKind}
    (hstore : store.OfKind kind Good Fits Seen) {cp : σ} (hgood : Good cp)
    {failure : Option Failure} {snapshot : Snapshot}
    (h : CplResult.unless (store.snapshot cp) failure = .ok snapshot) :
    (store.book cp).Governs snapshot := by
  cases failure with
  | some e => cases h
  | none => exact (hstore.snapshot cp snapshot hgood h).governs

omit [Text.UnicodeTables] in
/-- What a refresh leaves in the cache. -/
theorem refreshed_governs {Fits : List NewRule → Prop} {kind : StoreKind}
    (hstore : store.OfKind kind Good Fits Seen) {cp : σ} (hgood : Good cp)
    (failure : Option Failure) {cache : PolicyCache} {before : Book NewRule NewUpstream}
    (hbefore : before.Governs cache) :
    (if (cache.refresh (CplResult.unless (store.snapshot cp) failure)).1.isOk then store.book cp
      else before).Governs (cache.refresh (CplResult.unless (store.snapshot cp) failure)).2 := by
  cases hsnapshot : CplResult.unless (store.snapshot cp) failure with
  | error e => exact hbefore
  | ok snapshot => exact governs_unless hstore hgood hsnapshot

theorem start_ruled (setup : Setup) {Fits : List NewRule → Prop} {kind : StoreKind}
    (hstore : store.OfKind kind Good Fits Seen) {cp : σ} (hgood : Good cp) (boot : Boot ω) :
    ∃ accounts ingested, (Runtime.start store setup cp boot).1 = .started accounts ingested ∧
      Ruled store setup Good Seen (Docket.opened (store.book cp) accounts)
        (Runtime.start store setup cp boot).2 := by
  have hcache := refreshed_governs hstore hgood boot.snapshot Book.governs_empty
  have hruled : ∀ {s : Runtime σ}, (Good s.cp ∧ store.shelves s.cp = store.shelves cp) →
      s.cache = (PolicyCache.refresh ∅ (CplResult.unless (store.snapshot cp) boot.snapshot)).2 →
      s.pool = (fun protocol => .new (setup.fallback protocol)) → s.flights = ∅ →
      s.poll = .sleeping →
      Ruled store setup Good Seen (Docket.opened (store.book cp)
        (PolicyCache.refresh ∅ (CplResult.unless (store.snapshot cp) boot.snapshot)).1) s := by
    intro s hcp hcache' hpool hflights hpoll
    refine ⟨hcp.1, congrArg Shelves.submitted hcp.2, ?_, ?_, ?_, ?_, ?_⟩
    · simp [hpoll]
    · rw [hcache']
      exact hcache
    · intro protocol
      rw [hpool]
      exact UpstreamPool.sound_new _
    · intro task _
      rfl
    · simp [hflights]
  unfold Runtime.start
  dsimp only
  split_ifs
  · exact ⟨_, _, rfl, hruled (hstore.ingest hgood _ _ _ _) rfl rfl rfl rfl⟩
  · exact ⟨_, _, rfl, hruled ⟨hgood, rfl⟩ rfl rfl rfl rfl⟩

/-! ### Runs -/

def Input.Fits (Fits : List NewRule → Prop) : Input ω → Prop
  | .api req => req.Fits Fits
  | _ => True

omit [Text.UnicodeTables] in
theorem Input.fits_of_forall {Fits : List NewRule → Prop} (h : ∀ news, Fits news) (i : Input ω) :
    i.Fits Fits := by
  cases i with
  | api req =>
    cases req with
    | replaceRules n body =>
      cases body with
      | error rejection => trivial
      | ok news => exact h news
    | _ => trivial
  | _ => trivial

/-- The docket approves what one step does, and stays what docket and program have in common. -/
theorem step_ruled {Fits : List NewRule → Prop} {kind : StoreKind}
    (hstore : store.OfKind kind Good Fits Seen) (h : Ruled store setup Good Seen d s) {i : Input ω}
    (hfits : i.Fits Fits) :
    d.Approves s setup i (s.step store setup i).1 ∧
      Ruled store setup Good Seen (d.after s store.toManagementStore kind i (s.step store setup i).1)
        (s.step store setup i).2 := by
  have hrun : StepRun store setup s i (s.step store setup i) := step_run i
  generalize s.step store setup i = r at hrun ⊢
  cases hrun with
  | api req =>
    obtain ⟨hgood, hanswered⟩ := hstore.handle h.good hfits
    have hwrites := Http.handle_writes store.toManagementStore s.cp req
    refine ⟨trivial, { h with
      good := hgood, accepted := hanswered.book.trans ?_,
      views := h.views_written hstore (.managed hwrites) }⟩
    change (store.book s.cp).answered req _ = _
    rw [h.accepted]
    rfl
  | obtained n =>
    obtain ⟨hgood, hshelves⟩ := hstore.createAccount s.cp n h.good
    exact ⟨trivial, h.frame hgood hshelves (h.views_written hstore (.managed (.createAccount n))) rfl
      h.pool rfl⟩
  | idle =>
    have hafter : d.after s store.toManagementStore kind i .idle = d := by cases i <;> rfl
    exact ⟨trivial, hafter.symm ▸ h⟩
  | refused hquery => exact ⟨trivial, h⟩
  | unparsed harrives hname =>
    have hcase := h.caseOf_new harrives
    rw [Docket.after_of_arrives harrives]
    refine ⟨⟨.unparsed hname ?_, fun t r hi => absurd hi (not_received_of_arrives harrives t r)⟩,
      h.finish _ _ _ _⟩
    rw [hcase]
  | denied harrives hname hrule haction =>
    have hcase := h.caseOf_new harrives
    have hsubmitted := h.ruleFor_of_some hrule
    rw [Docket.after_of_arrives harrives]
    refine ⟨⟨?_, fun t r hi => absurd hi (not_received_of_arrives harrives t r)⟩,
      h.finish _ _ _ _⟩
    rw [hcase]
    exact .denied hname hsubmitted haction rfl
  | asked harrives hname hrule haction =>
    have hcase := h.caseOf_new harrives
    have hsubmitted := h.ruleFor_of_some hrule
    rw [Docket.after_of_arrives harrives]
    refine ⟨congrArg Case.sent hcase, h.goesOn ?_ ?_⟩
    · rw [hcase]
      exact h.inForce _
    · rw [hcase]
      exact ⟨_, hname, ⟨_, hsubmitted, haction⟩, rfl⟩
  | allowed harrives hname hrule =>
    have hcase := h.caseOf_new harrives
    rw [Docket.after_of_arrives harrives]
    refine h.dispatch ?_ hname ?_ ?_ i
    · rw [hcase]
      exact h.inForce _
    · rw [hcase]
      intro rule hsubmitted
      rw [← h.ruleFor_submitted, Option.map_eq_some_iff] at hsubmitted
      obtain ⟨stored, hstored, rfl⟩ := hsubmitted
      exact hrule stored hstored
    · rw [hcase]
  | @unreachable task query cached id n now window e hflight =>
    obtain ⟨-, qname, hname, hlets, hsent⟩ := h.caseOf_flight hflight query
    exact ⟨⟨.uncounted hname hlets hsent, by simp⟩, h.finish _ _ _ _⟩
  | @admitted task query cached id n now window cp hflight hquota =>
    obtain ⟨hstands, qname, hname, hlets, hsent⟩ := h.caseOf_flight hflight query
    exact (h.charged hstore hquota).dispatch hstands hname hlets hsent (.recordQuota task none now)
  | @exceeded task query cached id n now window cp hflight hquota =>
    obtain ⟨-, qname, hname, hlets, hsent⟩ := h.caseOf_flight hflight query
    exact ⟨⟨.exceeded hname hlets hsent, by simp⟩, (h.charged hstore hquota).finish _ _ _ _⟩
  | @failed task query cached id n now window cp e hflight hquota =>
    obtain ⟨-, qname, hname, hlets, hsent⟩ := h.caseOf_flight hflight query
    exact ⟨⟨.uncounted hname hlets hsent, by simp⟩, (h.charged hstore hquota).finish _ _ _ _⟩
  | @received task query cached outcome transport response hflight =>
    obtain ⟨-, qname, hname, hlets, hsent⟩ := h.caseOf_flight hflight query
    refine ⟨⟨.forwarded response hname hlets hsent, ?_⟩, h.finish _ _ _ _⟩
    intro task' response' hi
    cases hi
    rfl
  | fetched failure hfetching => exact ⟨trivial, h.fetched hstore failure hfetching⟩
  | @installed snapshot now hpoll =>
    unfold Runtime.install
    simp only [hpoll]
    refine ⟨trivial, { h with views := ?_, inForce := ?_ }⟩
    · intro reading hreading
      dsimp only at hreading
      split_ifs at hreading
    · cases snapshot with
      | error e => exact h.inForce
      | ok snapshot =>
        obtain ⟨views, hseen, hviews⟩ := h.views _ hpoll
        change (kind.assemble d.views).Governs snapshot
        rw [hviews]
        exact (kind.natural _ _ views).symm ▸ (hstore.fills s.cp views snapshot hseen).governs
  | ingested net world now hpoll =>
    obtain ⟨hgood, hshelves⟩ :=
      hstore.ingest h.good setup.blocklist.ingested net world s.categories
    have haccepted := (congrArg Shelves.submitted hshelves).trans h.accepted
    unfold Runtime.ingest
    simp only [hpoll]
    refine ⟨trivial, { h with good := hgood, accepted := haccepted, views := ?_ }⟩
    intro reading hreading
    cases hreading
  | restarted boot =>
    obtain ⟨hgood, hshelves⟩ := hstore.connect s.cp h.good
    have hbook : store.book (store.connect s.cp) = if kind.durable then store.book s.cp else .empty := by
      unfold ControlPlane.book
      rw [hshelves]
      split_ifs <;> rfl
    obtain ⟨accounts, ingested, hstarted, hruled⟩ :=
      start_ruled setup hstore hgood boot
    rw [hstarted]
    rw [hbook, h.accepted] at hruled
    exact ⟨trivial, hruled⟩

variable (store setup)

def Runtime.docketed (kind : StoreKind) : Machine (Runtime σ × Docket) (Input ω) Reaction :=
  (Runtime.machine store setup).observe fun d s i reaction =>
    d.after s store.toManagementStore kind i reaction

/-- A program that starts on a control plane, and the docket that it opens. -/
def Runtime.opening (cp : σ) (boot : Boot ω) : Runtime σ × Docket :=
  let (reaction, s) := Runtime.start store setup cp boot
  (s, (Docket.opened (store.book cp) (.ok 0)).after s store.toManagementStore .tables
    (.restart boot) reaction)

variable {store}

theorem run_ruled {Fits : List NewRule → Prop} {kind : StoreKind}
    (hstore : store.OfKind kind Good Fits Seen) {cp : σ} (hgood : Good cp) (boot : Boot ω)
    (is : List (Input ω)) (hfits : ∀ i ∈ is, i.Fits Fits) :
    Ruled store setup Good Seen
      ((Runtime.docketed store setup kind).exec (Runtime.opening store setup cp boot) is).2
      ((Runtime.docketed store setup kind).exec (Runtime.opening store setup cp boot) is).1 := by
  refine Machine.invariant _ (fun x : Runtime σ × Docket => Ruled store setup Good Seen x.2 x.1)
    (Input.Fits Fits) (fun _ _ hi h => (step_ruled hstore h hi).2) is _ hfits ?_
  obtain ⟨accounts, ingested, hstarted, hruled⟩ := start_ruled setup hstore hgood boot
  unfold Runtime.opening
  dsimp only
  rw [hstarted]
  exact hruled

end

section

variable [Text.UnicodeTables]

end

section

attribute [local instance] Text.asciiTables

def latin1 : Base64 :=
  ⟨List.map fun b => Char.ofNat b.toNat, fun t => .ok (t.map fun c => UInt8.ofNat c.toNat)⟩

/-- Every client is account `1`, and feeds are off. -/
def plainSetup : Setup :=
  ⟨⟨[], ['1']⟩, nxdomainPolicy, .default, fun _ => .UdpTransport ['u'] 53, latin1⟩

/-- A start at 1970-01-01 on a control plane that answers. -/
def calmBoot {ω : Type} (world : ω) : Boot ω :=
  ⟨none, none, none, ⟨.ok (), fun _ => .ok [], id, fun _ => .refl _⟩, world, 0, 0⟩

/-- The rule goes away after a snapshot has read it, and before a query that it still blocks. -/
def lateEdit {ω : Type} : List (Input ω) :=
  [.api (.replaceRules ['1'] (.ok [denyB])), .fetch none, .fetch none,
    .api (.replaceRules ['1'] (.ok [])), .fetch none, .install 0]

end

end Brdns
