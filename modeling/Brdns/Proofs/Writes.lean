import Brdns.Proofs.StaleRules
import Brdns.Proofs.StoreRefinement

/-! The writes of the Postgres control plane as a whole: what each leaves in the tables when it
succeeds, whatever it was given, and what it leaves alone. -/

namespace Brdns

open Lib Lib.Fold Database InMemControlPlane

namespace PostgresControlPlane

/-! ### Charges -/

theorem recordQuota_frame (db : PostgresControlPlane) (n : Text) (ruleId limitCount : ℤ)
    (window : Window) (now : ℤ) :
    (recordQuota db n ruleId limitCount window now).2.accounts = db.accounts ∧
      Database.rules (recordQuota db n ruleId limitCount window now).2 = Database.rules db := by
  have hcounter (id ws : ℤ) : (db.upsertCounter id ruleId ws limitCount).2.accounts =
      db.accounts ∧
        Database.rules (db.upsertCounter id ruleId ws limitCount).2 = Database.rules db := by
    unfold upsertCounter
    dsimp only
    split
    · split <;> exact ⟨rfl, rfl⟩
    · split
      · split <;> exact ⟨rfl, rfl⟩
      · exact ⟨rfl, rfl⟩
  unfold recordQuota
  split
  · exact ⟨rfl, rfl⟩
  · split
    · exact ⟨rfl, rfl⟩
    · exact ⟨rfl, rfl⟩
    · split
      · exact ⟨rfl, rfl⟩
      · exact hcounter _ _

/-! ### Lists that are taken -/

theorem ruleCols_nulFree {accountId : ℤ} {position : ℕ} {new : NewRule} {cols : RuleCols}
    (h : ruleCols accountId position new = .ok cols) : NulFree new.targetValue := by
  unfold ruleCols at h
  obtain ⟨action, -, h⟩ := bind_ok_iff.mp h
  obtain ⟨targetType, -, h⟩ := bind_ok_iff.mp h
  obtain ⟨targetValue, hvalue, -⟩ := bind_ok_iff.mp h
  exact nulFree_of_bindText hvalue

theorem upstreamCols_nulFree {accountId : Option ℤ} {isPreset : Bool} {new : NewUpstream}
    {cols : UpstreamCols} (h : upstreamCols accountId isPreset new = .ok cols) :
    NulFreeUpstream new := by
  unfold upstreamCols at h
  obtain ⟨name, hname, h⟩ := bind_ok_iff.mp h
  obtain ⟨protocol, -, h⟩ := bind_ok_iff.mp h
  obtain ⟨host, hhost, h⟩ := bind_ok_iff.mp h
  obtain ⟨addr, haddr, -⟩ := bind_ok_iff.mp h
  refine ⟨nulFree_of_bindText hname, nulFree_of_bindText hhost, fun a ha => ?_⟩
  rw [Option.mem_def.mp ha] at haddr
  cases hbind : bindText a with
  | error e => simp [hbind] at haddr
  | ok t => exact nulFree_of_bindText hbind

theorem insertRules_nulFree {accountId : ℤ} {news : List NewRule} {position : ℕ} {tx tx' : Database}
    {out : List Rule} (h : insertRules accountId position news tx = (.ok out, tx')) :
    ∀ new ∈ news, NulFree new.targetValue := by
  induction news generalizing position tx tx' out with
  | nil => simp
  | cons new news ih =>
    unfold insertRules at h
    split at h
    · cases h
    · rename_i cols hcols
      split at h
      · cases h
      · dsimp only at h
        split at h
        · cases h
        · rename_i hloop
          exact List.forall_mem_cons.mpr ⟨ruleCols_nulFree hcols, ih hloop⟩

theorem insertUpstreams_nulFree {accountId : ℤ} {news : List NewUpstream} {tx tx' : Database}
    {out : List Upstream} (h : insertUpstreams accountId news tx = (.ok out, tx')) :
    ∀ new ∈ news, NulFreeUpstream new := by
  induction news generalizing tx tx' out with
  | nil => simp
  | cons new news ih =>
    unfold insertUpstreams at h
    split at h
    · cases h
    · rename_i cols hcols
      split at h
      · cases h
      · dsimp only at h
        split at h
        · cases h
        · rename_i hloop
          exact List.forall_mem_cons.mpr ⟨upstreamCols_nulFree hcols, ih hloop⟩

theorem insertRules_taken {accountId : ℤ} {news : List NewRule} {tx tx' : Database}
    {out : List Rule} (haccount : Present tx.accounts.rows accountId)
    (h : insertRules accountId 0 news tx = (.ok out, tx')) :
    ∀ new ∈ news, NulFree new.targetValue ∧ new.Complete := by
  have hnul := insertRules_nulFree h
  refine fun new hnew => ⟨hnul new hnew, ?_⟩
  by_contra hnot
  obtain ⟨e, tx₁, hrefused⟩ := insertRules_refused 0 tx haccount hnul ⟨new, hnew, hnot⟩
  cases h.symm.trans hrefused

theorem insertUpstreams_taken {accountId : ℤ} {news : List NewUpstream} {tx tx' : Database}
    {out : List Upstream} (haccount : Present tx.accounts.rows accountId)
    (h : insertUpstreams accountId news tx = (.ok out, tx')) :
    (news.map NewUpstream.name).Nodup ∧ ∀ new ∈ news, NameFree tx accountId new.name := by
  by_contra hnot
  obtain ⟨e, tx₁, hrefused⟩ :=
    insertUpstreams_refused tx haccount (insertUpstreams_nulFree h) hnot
  cases h.symm.trans hrefused

/-- A loop that succeeds has added a row for each rule, which reads back as what it returns. -/
theorem insertRules_ok {accountId : ℤ} {news : List NewRule} {tx tx' : Database}
    {out : List Rule} (haccount : Present tx.accounts.rows accountId)
    (h : insertRules accountId 0 news tx = (.ok out, tx')) :
    out = (allotRules accountId tx.rules.serial 0 news).1 ∧ ∃ rows, RulesAdded tx tx' rows ∧
      List.Forall₂ (fun row rule => ruleFromRow row = .ok rule) rows out := by
  obtain ⟨tx₁, rows, hloop, hadded, hread⟩ :=
    insertRules_complete 0 tx haccount (insertRules_taken haccount h)
  cases h.symm.trans hloop
  exact ⟨rfl, rows, hadded, hread⟩

theorem insertUpstreams_ok {accountId : ℤ} {news : List NewUpstream} {tx tx' : Database}
    {out : List Upstream} (haccount : Present tx.accounts.rows accountId)
    (h : insertUpstreams accountId news tx = (.ok out, tx')) :
    out = (allotUpstreams (some accountId) false tx.upstreams.serial news).1 ∧
      ∃ rows, UpstreamsAdded tx tx' rows ∧
        List.Forall₂ (fun row up => upstreamFromRow row = .ok up) rows out := by
  obtain ⟨hnames, hfree⟩ := insertUpstreams_taken haccount h
  obtain ⟨tx₁, rows, hloop, hadded, hread⟩ :=
    insertUpstreams_distinct tx haccount (insertUpstreams_nulFree h) hnames hfree
  cases h.symm.trans hloop
  exact ⟨rfl, rows, hadded, hread⟩

/-! ### Whole calls -/

/-- The ways a call of `replace_rules` can go: its account may be refused, the transaction may
fail, or the rows of the new list take the place of the old ones. -/
inductive RulesPut (db : PostgresControlPlane) (n : Text) (news : List NewRule) :
    CplResult (List Rule) × PostgresControlPlane → Prop
  | refused {e : Failure} : RulesPut db n news (.error e, (accountIdOrCreate db n).2)
  | rolledBack {e : Failure} (tx : Database) :
      RulesPut db n news (.error e, (accountIdOrCreate db n).2.rollback tx)
  | stored {row : Row AccountCols} {rows : List (Row RuleCols)} {tx : Database}
      (hrow : (accountIdOrCreate db n).2.accountNamed n = some row)
      (hadded : RulesAdded ((accountIdOrCreate db n).2.deleteRules row.id) tx rows)
      (hread : List.Forall₂ (fun row rule => ruleFromRow row = .ok rule) rows
        (allotRules row.id (Database.rules (accountIdOrCreate db n).2).serial 0 news).1)
      (htaken : ∀ new ∈ news, NulFree new.targetValue ∧ new.Complete) :
      RulesPut db n news
        (.ok (allotRules row.id (Database.rules (accountIdOrCreate db n).2).serial 0 news).1, tx)

theorem replaceRules_put (db : PostgresControlPlane) (n : Text) (news : List NewRule) :
    RulesPut db n news (replaceRules db n news) := by
  cases hcreated : accountIdOrCreate db n with
  | mk result db₁ =>
  have hdb₁ : (accountIdOrCreate db n).2 = db₁ := by rw [hcreated]
  unfold replaceRules
  rw [hcreated]
  subst hdb₁
  cases result with
  | error e => exact .refused
  | ok id =>
    obtain ⟨row, hrow, rfl⟩ := accountIdOrCreate_named hcreated
    dsimp only
    cases hloop : insertRules row.id 0 news ((accountIdOrCreate db n).2.deleteRules row.id) with
    | mk looped tx =>
    cases looped with
    | error e => exact .rolledBack tx
    | ok out =>
      have hpresent : Present ((accountIdOrCreate db n).2.deleteRules row.id).accounts.rows row.id :=
        ⟨row, (accountNamed_spec hrow).1, rfl⟩
      obtain ⟨rfl, rows, hadded, hread⟩ := insertRules_ok hpresent hloop
      exact .stored hrow hadded hread (insertRules_taken hpresent hloop)

inductive UpstreamsPut (db : PostgresControlPlane) (n : Text) (news : List NewUpstream) :
    CplResult (List Upstream) × PostgresControlPlane → Prop
  | refused {e : Failure} : UpstreamsPut db n news (.error e, (accountIdOrCreate db n).2)
  | rolledBack {e : Failure} (tx : Database) :
      UpstreamsPut db n news (.error e, (accountIdOrCreate db n).2.rollback tx)
  | stored {row : Row AccountCols} {rows : List (Row UpstreamCols)} {tx : Database}
      (hrow : (accountIdOrCreate db n).2.accountNamed n = some row)
      (hadded : UpstreamsAdded ((accountIdOrCreate db n).2.deleteUpstreams row.id) tx rows)
      (hread : List.Forall₂ (fun row up => upstreamFromRow row = .ok up) rows
        (allotUpstreams (some row.id) false (accountIdOrCreate db n).2.upstreams.serial news).1)
      (htaken : (∀ new ∈ news, NulFreeUpstream new) ∧ (news.map NewUpstream.name).Nodup) :
      UpstreamsPut db n news (.ok (allotUpstreams (some row.id) false
        (accountIdOrCreate db n).2.upstreams.serial news).1, tx)

theorem replaceUpstreams_put (db : PostgresControlPlane) (n : Text) (news : List NewUpstream) :
    UpstreamsPut db n news (replaceUpstreams db n news) := by
  cases hcreated : accountIdOrCreate db n with
  | mk result db₁ =>
  have hdb₁ : (accountIdOrCreate db n).2 = db₁ := by rw [hcreated]
  unfold replaceUpstreams
  rw [hcreated]
  subst hdb₁
  cases result with
  | error e => exact .refused
  | ok id =>
    obtain ⟨row, hrow, rfl⟩ := accountIdOrCreate_named hcreated
    dsimp only
    cases hloop : insertUpstreams row.id news
      ((accountIdOrCreate db n).2.deleteUpstreams row.id) with
    | mk looped tx =>
    cases looped with
    | error e => exact .rolledBack tx
    | ok out =>
      have hpresent :
          Present ((accountIdOrCreate db n).2.deleteUpstreams row.id).accounts.rows row.id :=
        ⟨row, (accountNamed_spec hrow).1, rfl⟩
      obtain ⟨rfl, rows, hadded, hread⟩ := insertUpstreams_ok hpresent hloop
      exact .stored hrow hadded hread
        ⟨insertUpstreams_nulFree hloop, (insertUpstreams_taken hpresent hloop).1⟩

/-! ### Presets -/

theorem upstreamCols_accountId {accountId : Option ℤ} {isPreset : Bool} {new : NewUpstream}
    {cols : UpstreamCols} (h : upstreamCols accountId isPreset new = .ok cols) :
    cols.accountId = accountId := by
  unfold upstreamCols at h
  obtain ⟨name, -, h⟩ := bind_ok_iff.mp h
  obtain ⟨protocol, -, h⟩ := bind_ok_iff.mp h
  obtain ⟨host, -, h⟩ := bind_ok_iff.mp h
  obtain ⟨addr, -, h⟩ := bind_ok_iff.mp h
  cases h
  rfl

/-- A row of no account is not seen by any. -/
theorem insertUpstream_unowned (db : Database) {cols : UpstreamCols} (h : cols.accountId = none) :
    (db.insertUpstream cols).2.accounts = db.accounts ∧
      (db.insertUpstream cols).2.rules = Database.rules db ∧
      ∀ id, upstreamRows (db.insertUpstream cols).2 id = upstreamRows db id := by
  have hinsert (id : ℤ) : (db.upstreams.insert cols).select (fun u => u.accountId = some id) =
      upstreamRows db id := by
    unfold upstreamRows Table.select Table.insert
    rw [List.filter_append]
    simp [h]
  unfold insertUpstream
  dsimp only
  split
  · exact ⟨rfl, rfl, fun _ => rfl⟩
  · split
    · exact ⟨rfl, rfl, fun _ => rfl⟩
    · split
      · exact ⟨rfl, rfl, hinsert⟩
      · exact ⟨rfl, rfl, fun _ => rfl⟩

end PostgresControlPlane

end Brdns
