import Brdns.Lib.Relator
import Brdns.Proofs.Deployment
import Brdns.Proofs.Snapshots
import Brdns.Proofs.Statements

/-! Queries judged by rules that may be gone. A quota counter refers to its rule, so a cached limit
rule can be charged exactly as long as the rules of its account have not been replaced. -/

namespace Brdns

open Lib Database BytePacketBuffer

namespace PostgresControlPlane

/-! ### Calls that leave the rules alone -/

structure KeepsRules (db db' : Database) : Prop where
  accounts : ∃ new, db'.accounts.rows = db.accounts.rows ++ new
  rules : db'.rules.rows = db.rules.rows
  serial : db.rules.serial ≤ db'.rules.serial

/-- Nothing is done to the accounts and the rules, values drawn from sequences apart. -/
theorem KeepsRules.of_rows {db db' : Database} (haccounts : db'.accounts.rows = db.accounts.rows)
    (hrules : db'.rules.rows = db.rules.rows) (hserial : db.rules.serial ≤ db'.rules.serial) :
    KeepsRules db db' :=
  ⟨⟨[], haccounts.trans (List.append_nil _).symm⟩, hrules, hserial⟩

theorem KeepsRules.refl (db : Database) : KeepsRules db db := .of_rows rfl rfl le_rfl

theorem KeepsRules.trans {db db' db'' : Database} (h : KeepsRules db db')
    (h' : KeepsRules db' db'') : KeepsRules db db'' := by
  obtain ⟨new, hnew⟩ := h.accounts
  obtain ⟨new', hnew'⟩ := h'.accounts
  refine ⟨⟨new ++ new', ?_⟩, h'.rules.trans h.rules, h.serial.trans h'.serial⟩
  rw [hnew', hnew, List.append_assoc]

theorem KeepsRules.accountNamed {db db' : Database} (h : KeepsRules db db') {n : Text}
    {row : Row AccountCols} (hrow : db.accountNamed n = some row) :
    db'.accountNamed n = some row := by
  obtain ⟨new, hnew⟩ := h.accounts
  unfold Database.accountNamed at hrow ⊢
  rw [hnew, List.find?_append, hrow, Option.some_or]

/-- A rollback undoes what was done to the rows. -/
theorem keepsRules_rollback (db tx : Database) : KeepsRules db (db.rollback tx) :=
  .of_rows rfl rfl (le_max_left _ _)

theorem keepsRules_accountIdOrCreate (self : PostgresControlPlane) (n : Text) :
    KeepsRules self (accountIdOrCreate self n).2 := by
  by_cases hn : NulFree n
  · rcases accountIdOrCreate_cases self hn with ⟨row, -, hrun⟩ | ⟨-, self', hrun, haccounts, hrules, -⟩
    · rw [hrun]
      exact .refl self
    · rw [hrun]
      exact ⟨⟨_, congrArg Table.rows haccounts⟩, congrArg Table.rows hrules,
        (congrArg Table.serial hrules).ge⟩
  · unfold accountIdOrCreate bindText
    rw [dif_pos (not_not.mp hn)]
    exact .refl self

theorem keepsRules_insertUpstream (tx : Database) (cols : UpstreamCols) :
    KeepsRules tx (tx.insertUpstream cols).2 := by
  unfold insertUpstream
  dsimp only
  split
  · exact .of_rows rfl rfl le_rfl
  · split
    · exact .of_rows rfl rfl le_rfl
    · split <;> exact .of_rows rfl rfl le_rfl

theorem keepsRules_insertUpstreams (id : ℤ) (news : List NewUpstream) (tx : Database) :
    KeepsRules tx (insertUpstreams id news tx).2 := by
  induction news generalizing tx with
  | nil => exact .refl tx
  | cons new news ih =>
    unfold insertUpstreams
    split
    · exact .refl tx
    · rename_i cols hcols
      have hfirst := keepsRules_insertUpstream tx cols
      generalize tx.insertUpstream cols = inserted at hfirst ⊢
      obtain ⟨result, tx₁⟩ := inserted
      cases result with
      | error e => exact hfirst
      | ok id' =>
        have hrest := hfirst.trans (ih tx₁)
        dsimp only
        generalize insertUpstreams id news tx₁ = looped at hrest ⊢
        obtain ⟨result', tx₂⟩ := looped
        cases result' <;> exact hrest

theorem keepsRules_replaceUpstreams (self : PostgresControlPlane) (n : Text)
    (news : List NewUpstream) : KeepsRules self (replaceUpstreams self n news).2 := by
  have haccount := keepsRules_accountIdOrCreate self n
  unfold replaceUpstreams
  generalize accountIdOrCreate self n = created at haccount ⊢
  obtain ⟨result, self'⟩ := created
  cases result with
  | error e => exact haccount
  | ok id =>
    have hdelete : KeepsRules self' (self'.deleteUpstreams id) := .of_rows rfl rfl le_rfl
    have hloop := keepsRules_insertUpstreams id news (self'.deleteUpstreams id)
    dsimp only
    generalize insertUpstreams id news (self'.deleteUpstreams id) = looped at hloop ⊢
    obtain ⟨result', tx⟩ := looped
    cases result' with
    | error e => exact haccount.trans (keepsRules_rollback self' tx)
    | ok out => exact haccount.trans (hdelete.trans hloop)

theorem keepsRules_upsertCounter (db : Database) (accountId ruleId windowStart limitCount : ℤ) :
    KeepsRules db (db.upsertCounter accountId ruleId windowStart limitCount).2 := by
  unfold upsertCounter
  dsimp only
  split
  · split <;> exact .of_rows rfl rfl le_rfl
  · split
    · split <;> exact .of_rows rfl rfl le_rfl
    · exact .of_rows rfl rfl le_rfl

theorem keepsRules_recordQuota (self : PostgresControlPlane) (n : Text) (ruleId limitCount : ℤ)
    (window : Window) (now : ℤ) :
    KeepsRules self (recordQuota self n ruleId limitCount window now).2 := by
  unfold recordQuota
  split
  · exact .refl self
  · split
    · exact .refl self
    · exact .refl self
    · split
      · exact .refl self
      · exact keepsRules_upsertCounter self _ _ _ _

/-! ### Replaced rules -/

/-- The account of a write is there afterwards. -/
theorem accountIdOrCreate_named {self self' : PostgresControlPlane} {n : Text} {id : ℤ}
    (h : accountIdOrCreate self n = (.ok id, self')) :
    ∃ row, self'.accountNamed n = some row ∧ row.id = id := by
  by_cases hn : NulFree n
  · rcases accountIdOrCreate_cases self hn with
      ⟨row, hrow, hrun⟩ | ⟨hnone, self₁, hrun, haccounts, -⟩
    · cases h.symm.trans hrun
      exact ⟨row, (self.accountRow_eq ⟨n, hn⟩).symm.trans hrow, rfl⟩
    · cases h.symm.trans hrun
      rw [accountRow_eq] at hnone
      refine ⟨⟨self.accounts.serial + 1, ⟨⟨n, hn⟩⟩⟩, ?_, rfl⟩
      rw [accountNamed_insert haccounts, hnone, if_pos rfl]
      rfl
  · unfold accountIdOrCreate bindText at h
    rw [dif_pos (not_not.mp hn)] at h
    cases h

inductive ReplaceRun (self : PostgresControlPlane) (n : Text) :
    CplResult (List Rule) × PostgresControlPlane → Prop
  | refused {e : Failure} {after : Database} (hkeeps : KeepsRules self after) :
      ReplaceRun self n (.error e, after)
  | replaced {out : List Rule} {self' after : Database} {row : Row AccountCols}
      {rows : List (Row RuleCols)} (hkeeps : KeepsRules self self')
      (hrow : self'.accountNamed n = some row)
      (hadded : RulesAdded (self'.deleteRules row.id) after rows)
      (hrows : ∀ r ∈ rows, r.cols.accountId = row.id ∧ self'.rules.serial < r.id) :
      ReplaceRun self n (.ok out, after)

theorem replaceRules_run (self : PostgresControlPlane) (n : Text) (news : List NewRule) :
    ReplaceRun self n (replaceRules self n news) := by
  have haccount := keepsRules_accountIdOrCreate self n
  unfold replaceRules
  cases hcreated : accountIdOrCreate self n with
  | mk result self' =>
    rw [hcreated] at haccount
    cases result with
    | error e => exact .refused haccount
    | ok id =>
      obtain ⟨row, hrow, rfl⟩ := accountIdOrCreate_named hcreated
      dsimp only
      cases hloop : insertRules row.id 0 news (self'.deleteRules row.id) with
      | mk result' tx =>
        cases result' with
        | error e => exact .refused (haccount.trans (keepsRules_rollback self' tx))
        | ok out =>
          obtain ⟨rows, hadded, hrows⟩ := insertRules_added hloop
          exact .replaced haccount hrow hadded hrows

/-! ### Cached rules -/

/-- A rule from a snapshot: it is still stored as long as its account was not edited, and another
rule never takes its id. -/
structure CachedRule (edited : Bool) (db : Database) (n : Text) (rule : Rule) : Prop where
  account : ∃ row, db.accountNamed n = some row ∧ row.id = rule.accountId
  owner : ∀ row ∈ db.rules.rows, row.id = rule.id → row.cols.accountId = rule.accountId
  issued : rule.id ≤ db.rules.serial
  present : Present db.rules.rows rule.id ↔ edited = false

theorem CachedRule.keep {edited : Bool} {db db' : Database} {n : Text} {rule : Rule}
    (h : CachedRule edited db n rule) (hkeeps : KeepsRules db db') :
    CachedRule edited db' n rule where
  account := by
    obtain ⟨row, hrow, hid⟩ := h.account
    exact ⟨row, hkeeps.accountNamed hrow, hid⟩
  owner := hkeeps.rules.symm ▸ h.owner
  issued := h.issued.trans hkeeps.serial
  present := hkeeps.rules.symm ▸ h.present

/-- Replacing the rules of an account removes its cached rules and no others. -/
theorem CachedRule.replace {edited : Bool} {db after : Database} {n n' : Text} {rule : Rule}
    (h : CachedRule edited db n rule) {row : Row AccountCols}
    (hrow : db.accountNamed n' = some row) {rows : List (Row RuleCols)}
    (hadded : RulesAdded (db.deleteRules row.id) after rows)
    (hrows : ∀ r ∈ rows, r.cols.accountId = row.id ∧ db.rules.serial < r.id) :
    CachedRule (edited || decide (n' = n)) after n rule := by
  obtain ⟨row₀, hrow₀, hid₀⟩ := h.account
  have hsame : n' = n ↔ row.id = rule.accountId := by
    constructor
    · rintro rfl
      cases hrow.symm.trans hrow₀
      exact hid₀
    · intro hid
      exact accountNamed_inj hrow hrow₀ (hid.trans hid₀.symm)
  have hold : ∀ r ∈ after.rules.rows, r.id = rule.id →
      r ∈ db.rules.rows ∧ r.cols.accountId ≠ row.id := by
    intro r hr hid
    rw [hadded.rules] at hr
    rcases List.mem_append.mp hr with hkept | hnew
    · have hkept := List.mem_filter.mp hkept
      exact ⟨hkept.1, by simpa using hkept.2⟩
    · have := (hrows r hnew).2
      have := h.issued
      omega
  refine ⟨⟨row₀, ?_, hid₀⟩, fun r hr hid => h.owner r (hold r hr hid).1 hid, ?_, ?_⟩
  · rw [accountNamed_congr hadded.accounts]
    exact hrow₀
  · have hserial : after.rules.serial = db.rules.serial + rows.length := hadded.serial
    have := h.issued
    omega
  · rw [Bool.or_eq_false_iff, ← h.present, decide_eq_false_iff_not, hsame]
    constructor
    · rintro ⟨r, hr, hid⟩
      obtain ⟨hmem, hne⟩ := hold r hr hid
      exact ⟨⟨r, hmem, hid⟩, fun heq => hne ((h.owner r hmem hid).trans heq.symm)⟩
    · rintro ⟨⟨r, hr, hid⟩, hne⟩
      refine ⟨r, ?_, hid⟩
      rw [hadded.rules]
      refine List.mem_append_left _ (List.mem_filter.mpr ⟨hr, ?_⟩)
      simpa [h.owner r hr hid] using Ne.symm hne

/-- A snapshot caches what is stored. -/
theorem cachedRule_of_snapshot {self : PostgresControlPlane} {snapshot : Snapshot}
    (h : PostgresControlPlane.snapshot self = .ok snapshot) {n : Text} {rule : Rule}
    (hrule : rule ∈ Pipeline.cachedRules (snapshot.lookup n)) : CachedRule false self n rule := by
  have hreads := snapshot_reads h n
  generalize hnamed : self.accountNamed n = found at hreads
  generalize snapshot.lookup n = cached at hrule hreads
  cases hreads with
  | none => cases hrule
  | @some row policy hreads =>
    obtain ⟨r, hr, hread⟩ := forall₂_mem_right hreads.rules hrule
    obtain ⟨hmem, hid⟩ := List.mem_filter.mp hr
    have hmem : r ∈ (Database.rules self).rows := (Table.orderBy_perm _ _).mem_iff.mp hmem
    have hid : r.cols.accountId = row.id := by simpa using hid
    obtain ⟨hruleId, haccountId, -⟩ := ruleFromRow_ids hread
    refine ⟨⟨row, hnamed, ?_⟩, fun r' hr' hid' => ?_, ?_, ?_⟩
    · rw [haccountId, hid]
    · rw [Table.row_unique hr' hmem (hid'.trans hruleId), haccountId]
    · rw [hruleId]
      exact (Database.rules self).issued r hmem
    · exact iff_of_true ⟨r, hmem, hruleId.symm⟩ rfl

/-! ### Charges -/

/-- A counter is written exactly when the rule it counts for is there. -/
theorem upsertCounter_ok_iff (db : Database) {accountId : ℤ} (ruleId windowStart limitCount : ℤ)
    (haccount : Present db.accounts.rows accountId) :
    (∃ count, (db.upsertCounter accountId ruleId windowStart limitCount).1 = .ok count) ↔
      Present db.rules.rows ruleId := by
  unfold upsertCounter
  dsimp only
  split
  · rename_i r hr
    have hrule : Present db.rules.rows ruleId := by
      have hid := List.find?_some hr
      simp only [decide_eq_true_eq] at hid
      rw [← hid.1]
      exact db.constraints.counters_rule_fkey r (List.mem_of_find?_eq_some hr)
    refine iff_of_true ?_ hrule
    split <;> exact ⟨_, rfl⟩
  · rw [dif_pos haccount]
    split
    · rename_i hrule
      exact iff_of_true ⟨_, rfl⟩ hrule
    · rename_i hrule
      refine iff_of_false ?_ hrule
      rintro ⟨count, hcount⟩
      cases hcount

/-- A cached rule is charged without an error exactly when its limit allows nothing, or the clock
has a window and the rules of the account were not edited. -/
theorem CachedRule.charge_ok_iff {edited : Bool} {db : Database} {n : Text} {rule : Rule}
    (h : CachedRule edited db n rule) (limitCount : ℤ) (window : Window) (now : ℤ) :
    (∃ admitted, (recordQuota db n rule.id limitCount window now).1 = .ok admitted) ↔
      limitCount ≤ 0 ∨
        (∃ windowStart, Quota.windowStart now window = .ok windowStart) ∧ edited = false := by
  obtain ⟨row, hrow, -⟩ := h.account
  obtain ⟨hmem, rfl⟩ := accountNamed_spec hrow
  have hid := accountId_named db row.cols.accountNumber.property
  rw [hrow, Option.map_some] at hid
  unfold recordQuota
  split_ifs with hlimit
  · exact iff_of_true ⟨false, rfl⟩ (.inl hlimit)
  · rw [hid, or_iff_right hlimit]
    dsimp only
    cases Quota.windowStart now window with
    | error e => simp
    | ok windowStart =>
      have hcounter := upsertCounter_ok_iff db rule.id windowStart limitCount ⟨row, hmem, rfl⟩
      rw [h.present] at hcounter
      rw [← hcounter]
      dsimp only
      cases (db.upsertCounter row.id rule.id windowStart limitCount).1 <;> simp [Except.map]

end PostgresControlPlane

/-! ### Runs -/

namespace Deployment

open PostgresControlPlane

/-- Whether the rules of an account have been replaced since the last snapshot, after one more
step. -/
def editedAfter (account : Text) (edited : Bool) : Step × Output → Bool
  | (.refresh _, .refreshed (.ok _)) => false
  | (.replaceRules n _, .rules (.ok _)) => edited || decide (n = account)
  | _ => edited

/-- A `replace_rules` of the account has committed since the last refresh that succeeded. -/
def editedSinceRefresh (account : Text) (t : List (Step × Output)) : Bool :=
  t.foldl (editedAfter account) false

theorem editedSinceRefresh_concat (n : Text) (t : List (Step × Output)) (x : Step × Output) :
    editedSinceRefresh n (t ++ [x]) = editedAfter n (editedSinceRefresh n t) x := by
  unfold editedSinceRefresh
  rw [List.foldl_concat]

def Tracked (t : List (Step × Output)) (s : Deployment PostgresControlPlane) : Prop :=
  ∀ n, ∀ rule ∈ Pipeline.cachedRules (s.cache.lookup n),
    CachedRule (editedSinceRefresh n t) s.cp n rule

/-- A step that keeps the cache and the rules keeps track of them. -/
theorem Tracked.keep {t : List (Step × Output)} {s s' : Deployment PostgresControlPlane}
    (h : Tracked t s) (hcache : s'.cache = s.cache) (hkeeps : KeepsRules s.cp s'.cp)
    {x : Step × Output} (hx : ∀ n edited, editedAfter n edited x = edited) :
    Tracked (t ++ [x]) s' := by
  intro n rule hrule
  rw [hcache] at hrule
  rw [editedSinceRefresh_concat, hx]
  exact (h n rule hrule).keep hkeeps

section

variable [Text.UnicodeTables]

/-- A query changes neither the cache nor the rules. -/
theorem handleInner_keeps (world : World) (s : Deployment PostgresControlPlane)
    (policy : BlockPolicy) (account : Text) (raw : Bytes) :
    (s.handleInner controlPlane world policy account raw).2.cache = s.cache ∧
      KeepsRules s.cp (s.handleInner controlPlane world policy account raw).2.cp := by
  unfold handleInner
  split
  · exact ⟨rfl, .refl s.cp⟩
  · dsimp only
    split
    · exact ⟨rfl, .refl s.cp⟩
    · rename_i id limitCount window _
      have hkeeps := keepsRules_recordQuota s.cp account id limitCount window world.now
      split <;> exact ⟨rfl, hkeeps⟩
    · exact ⟨rfl, .refl s.cp⟩

theorem Tracked.step {t : List (Step × Output)} {s : Deployment PostgresControlPlane}
    (h : Tracked t s) (policy : BlockPolicy) (i : Step) :
    Tracked (t ++ [(i, (s.step controlPlane policy i).1)]) (s.step controlPlane policy i).2 := by
  cases i with
  | createAccount n =>
    apply h.keep
    · rfl
    · exact keepsRules_accountIdOrCreate s.cp n
    · exact fun _ _ => rfl
  | replaceUpstreams n news =>
    apply h.keep
    · rfl
    · exact keepsRules_replaceUpstreams s.cp n news
    · exact fun _ _ => rfl
  | rules | listUpstreams | activeUpstream | replaceIndex =>
    apply h.keep
    · rfl
    · exact .refl s.cp
    · exact fun _ _ => rfl
  | handleQuery world n raw =>
    obtain ⟨hcache, hkeeps⟩ := handleInner_keeps world s policy n raw
    apply h.keep hcache hkeeps
    exact fun _ _ => rfl
  | replaceRules n news =>
    have hrun := replaceRules_run s.cp n news
    intro n' rule hrule
    rw [editedSinceRefresh_concat]
    have hcached := h n' rule hrule
    change CachedRule (editedAfter n' _ (.replaceRules n news, .rules
      (PostgresControlPlane.replaceRules s.cp n news).1))
        (PostgresControlPlane.replaceRules s.cp n news).2 n' rule
    generalize PostgresControlPlane.replaceRules s.cp n news = r at hrun ⊢
    cases hrun with
    | refused hkeeps => exact hcached.keep hkeeps
    | replaced hkeeps hrow hadded hrows => exact (hcached.keep hkeeps).replace hrow hadded hrows
  | refresh failure =>
    intro n rule hrule
    rw [editedSinceRefresh_concat]
    cases hsnapshot : s.snapshotResult controlPlane failure with
    | error e =>
      simp only [Deployment.step, PolicyCache.refresh, hsnapshot] at hrule ⊢
      exact h n rule hrule
    | ok snapshot =>
      have htaken : PostgresControlPlane.snapshot s.cp = .ok snapshot := by
        cases failure with
        | some e => cases hsnapshot
        | none => exact hsnapshot
      simp only [Deployment.step, PolicyCache.refresh, hsnapshot] at hrule ⊢
      exact cachedRule_of_snapshot htaken hrule

theorem tracked (policy : BlockPolicy) (fallback : Transport) (is : List Step) :
    Tracked ((machine controlPlane policy).trace (init PostgresControlPlane.init fallback) is)
      ((machine controlPlane policy).exec (init PostgresControlPlane.init fallback) is) := by
  apply Machine.trace_invariant
  · intro n rule hrule
    simp [init, Pipeline.cachedRules] at hrule
  · exact fun _ _ i h => h.step policy i

/-- In every run, a query that a cached limit decides on is served exactly when the limit allows
nothing, or the clock has a window and no `replace_rules` of the account has committed since the
rules were cached. -/
theorem limited_query_served_iff (policy : BlockPolicy) (fallback : Transport) (is : List Step)
    {s : Deployment PostgresControlPlane}
    (hs : (machine controlPlane policy).exec (init PostgresControlPlane.init fallback) is = s)
    (world : World) {account : Text} {raw : Bytes} {packet : DnsPacket} {c : BytePacketBuffer}
    (hparse : DnsPacket.fromBuffer (fromBytes raw) = .ok packet c) {rule : Rule}
    (hrule : decidingRuleIn s.cache s.categories account (Blocking.firstName packet) = some rule)
    (hlimit : rule.action = .Limit) :
    ∃ answer, ((machine controlPlane policy).step s (.handleQuery world account raw)).1 =
        .answer answer ∧
      (Served policy world raw answer ↔ rule.limitCount.getD 0 ≤ 0 ∨
        (∃ windowStart, Quota.windowStart world.now (rule.limitWindow.getD .Month) =
          .ok windowStart) ∧
        editedSinceRefresh account ((machine controlPlane policy).trace
          (init PostgresControlPlane.init fallback) is) = false) := by
  refine ⟨(s.handleInner controlPlane world policy account raw).1, rfl, ?_⟩
  have htracked := tracked policy fallback is account rule
  rw [hs] at htracked
  rw [served_iff_charged controlPlane (queryName_of_ok hparse) hrule hlimit]
  exact (htracked (RuleEngine.firstMatch_mem hrule)).charge_ok_iff _ _ _

end

section

attribute [local instance] Text.asciiTables

def cachedRun : List Step := [.createAccount ['1'], .replaceRules ['1'] [oneAnHour], .refresh none]

def cachedLimit : Rule := ⟨1, 1, 0, .Limit, .Domain, ['b'], some 1, some .Hour, true⟩

theorem askB_parse : DnsPacket.fromBuffer (fromBytes askB) =
    .ok ⟨DnsHeader.ofFlags 7 1 0 1 0 0 0, [⟨['b'], .A⟩], [], [], []⟩ ⟨askB, 19⟩ := by
  decide +kernel

theorem limited_query_served_cached :
    ∃ answer, ((machine controlPlane nxdomainPolicy).step
        ((machine controlPlane nxdomainPolicy).exec
          (init PostgresControlPlane.init (.UdpTransport ['u'] 53)) cachedRun)
        (.handleQuery echoWorld ['1'] askB)).1 = .answer answer ∧
      (Served nxdomainPolicy echoWorld askB answer ↔ cachedLimit.limitCount.getD 0 ≤ 0 ∨
        (∃ windowStart, Quota.windowStart echoWorld.now (cachedLimit.limitWindow.getD .Month) =
          .ok windowStart) ∧
        editedSinceRefresh ['1'] ((machine controlPlane nxdomainPolicy).trace
          (init PostgresControlPlane.init (.UdpTransport ['u'] 53)) cachedRun) = false) :=
  limited_query_served_iff nxdomainPolicy (.UdpTransport ['u'] 53) cachedRun rfl echoWorld
    askB_parse (by decide +kernel : _ = some cachedLimit) rfl

def editedServer : Deployment PostgresControlPlane :=
  (machine controlPlane nxdomainPolicy).exec
    (init PostgresControlPlane.init (.UdpTransport ['u'] 53))
    (cachedRun ++ [.replaceRules ['1'] [oneAnHour]])

/-- Once the rules were edited, a cached limit makes the query an error. -/
theorem edited_rule_refuses_query :
    decidingRuleIn editedServer.cache editedServer.categories ['1'] ['b'] = some cachedLimit ∧
      (editedServer.handleInner controlPlane echoWorld nxdomainPolicy ['1'] askB).1.result =
        .error (foreignKeyError "quota_counters" "quota_counters_rule_id_fkey") ∧
      ¬ Served nxdomainPolicy echoWorld askB
        (editedServer.handleInner controlPlane echoWorld nxdomainPolicy ['1'] askB).1 := by
  have houtcome : (editedServer.handleInner controlPlane echoWorld nxdomainPolicy ['1']
      askB).1.outcome = .Error := by decide +kernel
  refine ⟨by decide +kernel, by decide +kernel, ?_⟩
  rintro (⟨transport, hanswer⟩ | hanswer)
  · rw [hanswer] at houtcome
    cases houtcome
  · rw [hanswer] at houtcome
    cases houtcome

end

end Deployment

end Brdns
