import Mathlib.Algebra.Order.BigOperators.Group.List
import Brdns.Proofs.Enforcement

/-! Limits over runs. Every stored copy of a rule has an id of its own and a counter under that
id, so a limit bounds the queries of one copy in one window, and a run by the number of copies. -/

namespace Brdns

open Lib InMemControlPlane Pipeline

/-! ### Limit rules -/

structure LimitSpec where
  targetType : TargetType
  targetValue : Text
  limitCount : ℤ
  limitWindow : Window

def LimitSpec.Holds (spec : LimitSpec) (rule : Rule) : Prop :=
  rule.action = .Limit ∧ rule.targetType = spec.targetType ∧
    rule.targetValue = spec.targetValue ∧ rule.limitCount = some spec.limitCount ∧
      rule.limitWindow = some spec.limitWindow

instance (spec : LimitSpec) (rule : Rule) : Decidable (spec.Holds rule) :=
  inferInstanceAs (Decidable (_ ∧ _))

/-- The first enabled copy of the limit in a list. -/
def LimitSpec.firstIn (spec : LimitSpec) (rules : List Rule) : Option Rule :=
  rules.find? fun rule => rule.enabled && spec.Holds rule

/-- Copies of one limit match the same names, so only the first enabled one ever decides. -/
theorem LimitSpec.firstIn_of_firstMatch {spec : LimitSpec} {qname : Text}
    {inCategory : Text → Bool} {rules : List Rule} {rule : Rule}
    (h : RuleEngine.firstMatch qname inCategory rules = some rule) (hspec : spec.Holds rule) :
    spec.firstIn rules = some rule := by
  obtain ⟨hmatch, before, after, rfl, hbefore⟩ := List.find?_eq_some_iff_append.mp h
  simp only [Bool.and_eq_true] at hmatch
  refine List.find?_eq_some_iff_append.mpr ⟨by simpa using ⟨hmatch.1, hspec⟩, before, after, rfl,
    fun r hr => ?_⟩
  have hno := hbefore r hr
  simp only [Bool.not_eq_true', Bool.and_eq_false_iff, decide_eq_false_iff_not] at hno ⊢
  refine hno.imp_right fun hno hr' => ?_
  -- an earlier copy would have matched in its place
  have hsame : RuleEngine.ruleMatches qname inCategory r =
      RuleEngine.ruleMatches qname inCategory rule := by
    simp only [RuleEngine.ruleMatches, hr'.2.1, hr'.2.2.1, hspec.2.1, hspec.2.2.1]
  rw [hsame, hmatch.2] at hno
  cases hno

/-! ### One charge -/

/-- Counters are never negative and stay within the limit of the issued rule with their id. -/
def QuotaOk (issued : Rule → Prop) (cp : InMemControlPlane) : Prop :=
  ∀ id ws count, cp.quota.lookup (id, ws) = some count →
    0 ≤ count ∧ ∃ r, issued r ∧ r.id = id ∧ count ≤ r.limitCount.getD 0

theorem QuotaOk.nonneg {issued : Rule → Prop} {cp : InMemControlPlane} (h : QuotaOk issued cp)
    (id ws : ℤ) : 0 ≤ cp.counter id ws := by
  rw [counter]
  cases hc : cp.quota.lookup (id, ws) with
  | none => exact le_rfl
  | some count => exact (h id ws count hc).1

section

variable {cp : InMemControlPlane} {rule : Rule} {window : Window} {now : ℤ}
  {r : CplResult Bool × InMemControlPlane}

theorem QuotaRun.quotaOk {issued : Rule → Prop} (hrule : issued rule) (hok : QuotaOk issued cp)
    (h : QuotaRun cp rule.id (rule.limitCount.getD 0) window now r) : QuotaOk issued r.2 := by
  cases h with
  | zero | failed => exact hok
  | @refused ws hpos hws hcount =>
    -- a refused query leaves the counter as it was
    cases hc : cp.quota.lookup (rule.id, ws) with
    | none =>
      rw [counter, hc, Option.getD_none] at hcount
      omega
    | some count =>
      intro id ws' count' hc'
      rw [counter, hc, Option.getD_some, HashMap.insert_of_lookup hc] at hc'
      exact hok id ws' count' hc'
  | @counted ws hpos hws hcount =>
    intro id ws' count' hc
    rw [HashMap.lookup_insert] at hc
    split_ifs at hc with hkey
    · cases hc
      cases hkey
      have := hok.nonneg rule.id ws
      exact ⟨by omega, rule, hrule, rfl, by omega⟩
    · exact hok id ws' count' hc

/-- A charge takes no counter back. -/
theorem QuotaRun.mono (h : QuotaRun cp rule.id (rule.limitCount.getD 0) window now r)
    (id ws : ℤ) : cp.counter id ws ≤ r.2.counter id ws := by
  cases h with
  | zero | failed => exact le_rfl
  | refused | counted =>
    rw [counter_insert]
    split_ifs with hkey
    · cases hkey
      omega
    · exact le_rfl

/-- An admitted query raises the counter of its rule by one. -/
theorem QuotaRun.counted_of_ok {admitted : InMemControlPlane}
    (h : QuotaRun cp rule.id (rule.limitCount.getD 0) window now (.ok true, admitted)) :
    ∃ ws, Quota.windowStart now window = .ok ws ∧
      admitted.counter rule.id ws = cp.counter rule.id ws + 1 := by
  cases h with
  | counted _ hws _ =>
    refine ⟨_, hws, ?_⟩
    rw [counter_insert, if_pos rfl]

end

/-! ### The rule lists of a run -/

/-- The rule list a step stores, with its account. -/
def storedBy : Server × Step → Option (Text × List Rule)
  | (s, .replaceRules n news) => some (n, s.cp.newRules n news)
  | _ => none

def stored (h : List (Server × Step)) : List (Text × List Rule) := h.filterMap storedBy

theorem stored_concat (h : List (Server × Step)) (x : Server × Step) :
    stored (h ++ [x]) = stored h ++ (storedBy x).toList := by
  rw [stored, List.filterMap_append]
  cases hx : storedBy x <;> simp [stored, hx]

/-- The rule was given out along a history. -/
def Issued (h : List (Server × Step)) (rule : Rule) : Prop := ∃ p ∈ stored h, rule ∈ p.2

/-- What ids stand for along a history: each belongs to one rule, the stored and the cached
lists are lists that were given out, and so are the rules with counters. -/
structure Ledger (h : List (Server × Step)) (s : Server) : Prop where
  fresh : ∀ r, Issued h r → r.id ≤ s.cp.nextRuleId
  unique : ∀ r r', Issued h r → Issued h r' → r.id = r'.id → r = r'
  store : ∀ n, s.cp.rules n = [] ∨ (n, s.cp.rules n) ∈ stored h
  cache : ∀ n, cachedRules (s.cache.lookup n) = [] ∨
    (n, cachedRules (s.cache.lookup n)) ∈ stored h
  quota : QuotaOk (Issued h) s.cp

theorem ledger_init (fallback : Transport) : Ledger [] (Server.init fallback) where
  fresh := by simp [Issued, stored]
  unique := by simp [Issued, stored]
  store := by simp [Server.init, InMemControlPlane.default, InMemControlPlane.rules]
  cache := by simp [Server.init, cachedRules]
  quota := by simp [QuotaOk, Server.init, InMemControlPlane.default]

/-- A rule that decides was given out to the account it decides for. -/
theorem Ledger.stored_of_deciding {h : List (Server × Step)} {s : Server} (hl : Ledger h s)
    {account qname : Text} {rule : Rule} (hrule : s.decidingRule account qname = some rule) :
    ∃ rules, (account, rules) ∈ stored h ∧ rule ∈ rules ∧
      RuleEngine.firstMatch qname (fun cat => s.categories.contains qname cat) rules =
        some rule := by
  have hmem := RuleEngine.firstMatch_mem hrule
  rcases hl.cache account with hnil | hstored
  · rw [hnil] at hmem
    cases hmem
  · exact ⟨_, hstored, hmem, hrule⟩

/-- Steps that give out no rules keep the ledger when they keep the counters in order, leave the
stored lists alone and cache none but these. -/
theorem Ledger.of_not_stored {h : List (Server × Step)} {s s' : Server} {i : Step}
    (hl : Ledger h s) (hnone : storedBy (s, i) = none) (hnext : s'.cp.nextRuleId = s.cp.nextRuleId)
    (hstore : ∀ n, s'.cp.rules n = s.cp.rules n)
    (hcache : ∀ n, cachedRules (s'.cache.lookup n) = cachedRules (s.cache.lookup n) ∨
      cachedRules (s'.cache.lookup n) = s.cp.rules n)
    (hquota : QuotaOk (Issued h) s'.cp) : Ledger (h ++ [(s, i)]) s' := by
  have hstored : stored (h ++ [(s, i)]) = stored h := by
    rw [stored_concat, hnone, Option.toList_none, List.append_nil]
  have hissued : Issued (h ++ [(s, i)]) = Issued h := by
    funext r
    rw [Issued, hstored, Issued]
  refine ⟨?_, ?_, fun n => ?_, fun n => ?_, hissued ▸ hquota⟩
  · rw [hissued, hnext]
    exact hl.fresh
  · rw [hissued]
    exact hl.unique
  · rw [hstored, hstore]
    exact hl.store n
  · rw [hstored]
    rcases hcache n with heq | heq
    · rw [heq]
      exact hl.cache n
    · rw [heq]
      exact hl.store n

theorem Ledger.replaceRules {h : List (Server × Step)} {s : Server} (hl : Ledger h s) (n : Text)
    (news : List NewRule) :
    Ledger (h ++ [(s, .replaceRules n news)]) { s with cp := (s.cp.replaceRules n news).2 } := by
  have hstored : stored (h ++ [(s, .replaceRules n news)]) =
      stored h ++ [(n, s.cp.newRules n news)] := stored_concat h _
  have hissued (r : Rule) : Issued (h ++ [(s, .replaceRules n news)]) r ↔
      Issued h r ∨ r ∈ s.cp.newRules n news := by
    simp only [Issued, hstored, List.mem_append, List.mem_singleton, or_and_right, exists_or,
      exists_eq_left]
  have hids : ∀ r ∈ s.cp.newRules n news,
      s.cp.nextRuleId < r.id ∧ r.id ≤ s.cp.nextRuleId + news.length := allotRules_ids
  refine ⟨?_, ?_, ?_, ?_, ?_⟩
  · intro r hr
    rw [replaceRules_eq]
    change r.id ≤ s.cp.nextRuleId + news.length
    rcases (hissued r).mp hr with hr | hr
    · have := hl.fresh r hr
      omega
    · exact (hids r hr).2
  · intro r r' hr hr' heq
    rcases (hissued r).mp hr with hr | hr <;> rcases (hissued r').mp hr' with hr' | hr'
    · exact hl.unique r r' hr hr' heq
    · have := hl.fresh r hr
      have := (hids r' hr').1
      omega
    · have := hl.fresh r' hr'
      have := (hids r hr).1
      omega
    · exact allotRules_unique r hr r' hr' heq
  · intro n'
    rw [hstored, List.mem_append]
    dsimp only
    rw [rules_replaceRules]
    split_ifs with hn
    · exact .inr (.inr (List.mem_singleton.mpr (by rw [hn])))
    · exact (hl.store n').imp_right .inl
  · intro n'
    rw [hstored, List.mem_append]
    exact (hl.cache n').imp_right .inl
  · rw [replaceRules_eq]
    intro id ws count hc
    obtain ⟨h0, r, hr, hid, hle⟩ := hl.quota id ws count hc
    exact ⟨h0, r, (hissued r).mpr (.inl hr), hid, hle⟩

/-! ### Counters -/

def replacesRules (account : Text) : Server × Step → Bool
  | (_, .replaceRules n _) => n = account
  | _ => false

/-- The ids that queries can be counted under: one for each list stored for the account. -/
def limitIds (account : Text) (spec : LimitSpec) (h : List (Server × Step)) : List ℤ :=
  h.filterMap fun x => (storedBy x).bind fun p =>
    if p.1 = account then (spec.firstIn p.2).map Rule.id else none

theorem mem_limitIds {account : Text} {spec : LimitSpec} {h : List (Server × Step)} {id : ℤ} :
    id ∈ limitIds account spec h ↔
      ∃ rules rule, (account, rules) ∈ stored h ∧ spec.firstIn rules = some rule ∧
        rule.id = id := by
  simp only [limitIds, stored, List.mem_filterMap, Option.bind_eq_some_iff]
  constructor
  · rintro ⟨x, hx, ⟨n, rules⟩, hp, h⟩
    split_ifs at h with hn
    obtain ⟨rule, hrule, hid⟩ := Option.map_eq_some_iff.mp h
    exact ⟨rules, rule, ⟨x, hx, by rw [hp, ← hn]⟩, hrule, hid⟩
  · rintro ⟨rules, rule, ⟨x, hx, hp⟩, hrule, hid⟩
    exact ⟨x, hx, _, hp, by rw [if_pos rfl, hrule, Option.map_some, hid]⟩

theorem limitIds_length (account : Text) (spec : LimitSpec) (h : List (Server × Step)) :
    (limitIds account spec h).length ≤ h.countP (replacesRules account) := by
  rw [limitIds, List.length_filterMap_eq_countP]
  refine List.countP_mono_left fun x _ hx => ?_
  obtain ⟨s, i⟩ := x
  cases i with
  | replaceRules n news =>
    by_cases hn : n = account
    · simp [replacesRules, hn]
    · simp [storedBy, hn] at hx
  | _ => simp [storedBy] at hx

theorem limitIds_append (account : Text) (spec : LimitSpec) (h h' : List (Server × Step)) :
    limitIds account spec (h ++ h') = limitIds account spec h ++ limitIds account spec h' :=
  List.filterMap_append

def total (cp : InMemControlPlane) (ws : ℤ) (ids : List ℤ) : ℤ :=
  (ids.map fun id => cp.counter id ws).sum

theorem total_append (cp : InMemControlPlane) (ws : ℤ) (ids ids' : List ℤ) :
    total cp ws (ids ++ ids') = total cp ws ids + total cp ws ids' := by
  rw [total, List.map_append, List.sum_append, total, total]

theorem total_nonneg {issued : Rule → Prop} {cp : InMemControlPlane} (h : QuotaOk issued cp)
    (ws : ℤ) (ids : List ℤ) : 0 ≤ total cp ws ids := by
  refine List.sum_nonneg fun count hcount => ?_
  obtain ⟨id, -, rfl⟩ := List.mem_map.mp hcount
  exact h.nonneg id ws

/-- No counter of a copy of the limit exceeds it. -/
theorem Ledger.counter_le {h : List (Server × Step)} {s : Server} (hl : Ledger h s)
    {account : Text} {spec : LimitSpec} (ws : ℤ) {id : ℤ}
    (hid : id ∈ limitIds account spec h) : s.cp.counter id ws ≤ max spec.limitCount 0 := by
  rw [counter]
  cases hc : s.cp.quota.lookup (id, ws) with
  | none => exact le_max_right _ _
  | some count =>
    obtain ⟨-, r, hr, hrid, hle⟩ := hl.quota id ws count hc
    obtain ⟨rules, rule, hrules, hfirst, hruleid⟩ := mem_limitIds.mp hid
    have hholds : spec.Holds rule := by
      have := List.find?_some hfirst
      simp only [Bool.and_eq_true, decide_eq_true_eq] at this
      exact this.2
    have heq : r = rule := hl.unique r rule hr ⟨_, hrules, List.mem_of_find?_eq_some hfirst⟩
      (hrid.trans hruleid.symm)
    rw [heq, hholds.2.2.2.1, Option.getD_some] at hle
    exact le_trans hle (le_max_left _ _)

/-! ### One step -/

section

variable [Text.UnicodeTables]

/-- What a query does to the counters. -/
theorem QueryRun.quota {policy : BlockPolicy} {world : World} {server : Server} {account : Text}
    {raw : Bytes} {r : Answer × Server} (h : QueryRun policy world server account raw r) :
    r.2.cp = server.cp ∨ ∃ qname rule admitted,
      server.decidingRule account qname = some rule ∧
        QuotaRun server.cp rule.id (rule.limitCount.getD 0) (rule.limitWindow.getD .Month)
          world.now (admitted, r.2.cp) := by
  rcases h.cp with hcp | ⟨qname, rule, hrule, -, hcp⟩
  · exact .inl hcp
  · refine .inr ⟨qname, rule, (server.charge account world.now rule).1, hrule, ?_⟩
    rw [hcp]
    exact server.charge_run account world.now rule

theorem Ledger.handleQuery {policy : BlockPolicy} {world : World} {h : List (Server × Step)}
    {s : Server} (hl : Ledger h s) {account : Text} {raw : Bytes} {r : Answer × Server}
    (hrun : QueryRun policy world s account raw r) :
    Ledger (h ++ [(s, .handleQuery world account raw)]) r.2 := by
  have hcp : QuotaOk (Issued h) r.2.cp ∧ ∃ quota, r.2.cp = { s.cp with quota } := by
    rcases hrun.quota with hsame | ⟨qname, rule, admitted, hrule, hquota⟩
    · rw [hsame]
      exact ⟨hl.quota, _, rfl⟩
    · obtain ⟨rules, hrules, hmem, -⟩ := hl.stored_of_deciding hrule
      exact ⟨hquota.quotaOk ⟨_, hrules, hmem⟩ hl.quota, hquota.frame⟩
  obtain ⟨hok, quota, hframe⟩ := hcp
  refine hl.of_not_stored rfl ?_ (fun n => ?_) (fun n => .inl ?_) hok
  · rw [hframe]
  · rw [hframe]
    rfl
  · rw [hrun.cache]

theorem ledger_step (policy : BlockPolicy) {h : List (Server × Step)} {s : Server}
    (hl : Ledger h s) (i : Step) : Ledger (h ++ [(s, i)]) (s.step policy i).2 := by
  cases i with
  | createAccount n =>
    have hsame (n' : Text) := s.cp.rules_createAccount n n'
    simp only [Server.step]
    rw [createAccount, getOrCreate_eq] at hsame ⊢
    exact hl.of_not_stored rfl rfl hsame (fun _ => .inl rfl) hl.quota
  | replaceRules n news => exact hl.replaceRules n news
  | replaceUpstreams n news =>
    have hsame (n' : Text) := s.cp.rules_replaceUpstreams n n' news
    simp only [Server.step]
    rw [replaceUpstreams_eq] at hsame ⊢
    exact hl.of_not_stored rfl rfl hsame (fun _ => .inl rfl) hl.quota
  | rules | listUpstreams | activeUpstream | replaceIndex =>
    exact hl.of_not_stored rfl rfl (fun _ => rfl) (fun _ => .inl rfl) hl.quota
  | refresh failure =>
    cases failure with
    | some e => exact hl.of_not_stored rfl rfl (fun _ => rfl) (fun _ => .inl rfl) hl.quota
    | none =>
      exact hl.of_not_stored rfl rfl (fun _ => rfl) (fun n => .inr (cachedRules_snapshot s.cp n))
        hl.quota
  | handleQuery world account raw =>
    exact hl.handleQuery (handleQuery_run policy world s account raw)

/-! ### Counting queries -/

/-- The step is a query of the account in the window `ws` that is sent upstream because a copy of
the limit is its first match. -/
def forwardedUnder (policy : BlockPolicy) (account : Text) (spec : LimitSpec) (ws : ℤ) :
    Server × Step → Bool
  | (s, .handleQuery world n raw) =>
    n = account && Quota.windowStart world.now spec.limitWindow = .ok ws &&
      (handleQuery policy world s n raw).1.sent ≠ [] &&
      match queryName raw with
      | .ok qname => (s.decidingRule n qname).any fun rule => spec.Holds rule
      | .error _ => false
  | _ => false

theorem step_counter (policy : BlockPolicy) (s : Server) (i : Step) (id ws : ℤ) :
    s.cp.counter id ws ≤ (s.step policy i).2.cp.counter id ws := by
  cases i with
  | createAccount n => simp [Server.step, createAccount, getOrCreate_eq, counter]
  | replaceRules n news => simp [Server.step, replaceRules_eq, counter]
  | replaceUpstreams n news => simp [Server.step, replaceUpstreams_eq, counter]
  | rules | listUpstreams | activeUpstream | replaceIndex => exact le_rfl
  | refresh failure => cases failure <;> exact le_rfl
  | handleQuery world account raw =>
    rcases (handleQuery_run policy world s account raw).quota with
      hcp | ⟨qname, rule, admitted, -, hquota⟩
    · change s.cp.counter id ws ≤ (handleQuery policy world s account raw).2.cp.counter id ws
      rw [hcp]
    · exact hquota.mono id ws

/-- A query sent under a limit is counted under the id of the copy that decided. -/
theorem forwardedUnder_counted {policy : BlockPolicy} {account : Text} {spec : LimitSpec}
    {ws : ℤ} {h : List (Server × Step)} {s : Server} (hl : Ledger h s) {i : Step}
    (hf : forwardedUnder policy account spec ws (s, i) = true) :
    ∃ id ∈ limitIds account spec h,
      s.cp.counter id ws < (s.step policy i).2.cp.counter id ws := by
  cases i with
  | handleQuery world n raw =>
    have hrun := handleQuery_run policy world s n raw
    change ∃ id ∈ limitIds account spec h,
      s.cp.counter id ws < (handleQuery policy world s n raw).2.cp.counter id ws
    simp only [forwardedUnder, Bool.and_eq_true, decide_eq_true_eq] at hf
    generalize handleQuery policy world s n raw = r at hrun hf ⊢
    obtain ⟨⟨⟨rfl, hws⟩, hsent⟩, hspec⟩ := hf
    cases hrun with
    | unparsed | denied | exceeded | failed => exact absurd rfl hsent
    | @allowed qname hname hrule =>
      rw [hname] at hspec
      obtain ⟨rule, hdecides, hholds⟩ := (Option.any_eq_true _ _).mp hspec
      -- a limit would have been charged
      have hallow := hrule rule hdecides
      rw [(of_decide_eq_true hholds).1] at hallow
      cases hallow
    | @admitted qname rule hname hrule haction hcharge =>
      rw [hname] at hspec
      have hholds : spec.Holds rule := by simpa [hrule] using hspec
      obtain ⟨rules, hrules, hmem, hfirst⟩ := hl.stored_of_deciding hrule
      refine ⟨rule.id, mem_limitIds.mpr
        ⟨rules, rule, hrules, LimitSpec.firstIn_of_firstMatch hfirst hholds, rfl⟩, ?_⟩
      have hquota : QuotaRun s.cp rule.id (rule.limitCount.getD 0)
          (rule.limitWindow.getD .Month) world.now (.ok true, (s.charge n world.now rule).2) := by
        rw [← hcharge]
        exact s.charge_run n world.now rule
      obtain ⟨ws', hws', hcounted⟩ := hquota.counted_of_ok
      rw [hholds.2.2.2.2, Option.getD_some, hws] at hws'
      cases hws'
      change s.cp.counter rule.id ws < (s.charge n world.now rule).2.counter rule.id ws
      omega
  | _ => simp [forwardedUnder] at hf

/-- The counters together have counted every query sent under the limit. -/
theorem forwarded_le_total_step {policy : BlockPolicy} {account : Text} {spec : LimitSpec}
    {ws : ℤ} {h : List (Server × Step)} {s : Server} (hl : Ledger h s)
    (hle : (h.countP (forwardedUnder policy account spec ws) : ℤ) ≤
      total s.cp ws (limitIds account spec h)) (i : Step) :
    ((h ++ [(s, i)]).countP (forwardedUnder policy account spec ws) : ℤ) ≤
      total (s.step policy i).2.cp ws (limitIds account spec (h ++ [(s, i)])) := by
  have hext : total (s.step policy i).2.cp ws (limitIds account spec h) ≤
      total (s.step policy i).2.cp ws (limitIds account spec (h ++ [(s, i)])) := by
    rw [limitIds_append, total_append]
    exact le_add_of_nonneg_right (total_nonneg (ledger_step policy hl i).quota ws _)
  refine le_trans ?_ hext
  rw [List.countP_append, List.countP_singleton]
  split_ifs with hf
  · have hlt : total s.cp ws (limitIds account spec h) <
        total (s.step policy i).2.cp ws (limitIds account spec h) :=
      List.sum_lt_sum _ _ (fun id _ => step_counter policy s i id ws)
        (forwardedUnder_counted hl hf)
    push_cast
    omega
  · have hmono : total s.cp ws (limitIds account spec h) ≤
        total (s.step policy i).2.cp ws (limitIds account spec h) :=
      List.sum_le_sum fun id _ => step_counter policy s i id ws
    push_cast
    omega

/-- A limit's budget over a run. Within one window the queries of an account that are sent
because a copy of the limit was their first match number at most the limit, once for each
`replace_rules` call of the account. -/
theorem limit_budget (policy : BlockPolicy) (fallback : Transport) (is : List Step)
    (account : Text) (spec : LimitSpec) (ws : ℤ) :
    let h := (Server.machine policy).history (Server.init fallback) is
    (h.countP (forwardedUnder policy account spec ws) : ℤ) ≤
      max spec.limitCount 0 * h.countP (replacesRules account) := by
  intro h
  have hinv : Ledger h ((Server.machine policy).exec (Server.init fallback) is) ∧
      (h.countP (forwardedUnder policy account spec ws) : ℤ) ≤
        total ((Server.machine policy).exec (Server.init fallback) is).cp ws
          (limitIds account spec h) := by
    refine (Server.machine policy).history_invariant
      (fun h s => Ledger h s ∧ (h.countP (forwardedUnder policy account spec ws) : ℤ) ≤
        total s.cp ws (limitIds account spec h)) _ ⟨ledger_init fallback, le_rfl⟩ ?_ is
    rintro h s i ⟨hl, hle⟩
    exact ⟨ledger_step policy hl i, forwarded_le_total_step hl hle i⟩
  obtain ⟨hl, hle⟩ := hinv
  generalize (Server.machine policy).exec (Server.init fallback) is = s at hl hle
  have hmax : (0 : ℤ) ≤ max spec.limitCount 0 := le_max_right _ _
  calc (h.countP (forwardedUnder policy account spec ws) : ℤ)
      ≤ total s.cp ws (limitIds account spec h) := hle
    _ ≤ (limitIds account spec h).length * max spec.limitCount 0 := by
        rw [total]
        refine (List.sum_le_card_nsmul _ (max spec.limitCount 0) ?_).trans ?_
        · simp only [List.mem_map]
          rintro _ ⟨id, hid, rfl⟩
          exact hl.counter_le ws hid
        · rw [List.length_map, nsmul_eq_mul]
    _ ≤ h.countP (replacesRules account) * max spec.limitCount 0 :=
        mul_le_mul_of_nonneg_right (by exact_mod_cast limitIds_length account spec h) hmax
    _ = max spec.limitCount 0 * h.countP (replacesRules account) := mul_comm _ _

end

section

attribute [local instance] Text.asciiTables

def hourlyB : LimitSpec := ⟨.Domain, ['b'], 1, .Hour⟩

/-- A rule is added behind the limit between two queries. -/
def editedRun : List Step :=
  [.replaceRules ['1'] [oneAnHour], .refresh none, .handleQuery echoWorld ['1'] askB,
    .replaceRules ['1'] [oneAnHour, denyB], .refresh none, .handleQuery echoWorld ['1'] askB]

/-- Every edit renews the limits of the list, also those it leaves alone. -/
theorem edit_renews_limit :
    ¬ ∀ (policy : BlockPolicy) (fallback : Transport) (is : List Step) (account : Text)
      (spec : LimitSpec) (ws : ℤ),
      (∀ world n raw, .handleQuery world n raw ∈ is →
        Quota.windowStart world.now spec.limitWindow = .ok ws) →
      (∀ p ∈ stored ((Server.machine policy).history (Server.init fallback) is),
        p.1 = account → p.2.countP (fun rule => spec.Holds rule) = 1) →
      (((Server.machine policy).history (Server.init fallback) is).countP
        (forwardedUnder policy account spec ws) : ℤ) ≤ spec.limitCount := by
  intro h
  have hwindow : ∀ world n raw, Step.handleQuery world n raw ∈ editedRun →
      Quota.windowStart world.now hourlyB.limitWindow = .ok 0 := by
    intro world n raw hi
    simp only [editedRun, List.mem_cons, reduceCtorEq, false_or, List.not_mem_nil, or_false,
      Step.handleQuery.injEq, or_self] at hi
    rw [hi.1]
    decide
  have hle := h nxdomainPolicy (.UdpTransport ['u'] 53) editedRun ['1'] hourlyB 0 hwindow
    (by decide +kernel)
  revert hle
  decide +kernel

end

end Brdns
