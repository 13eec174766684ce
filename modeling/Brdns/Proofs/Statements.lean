import Brdns.Lib.Fold
import Brdns.Proofs.Management
import Brdns.Spec.Postgres

/-! What the statements of the Postgres control plane do: which rows a new list becomes, when the
constraints refuse one, and how rows read back. -/

namespace Brdns

open Lib Lib.Fold Database InMemControlPlane

/-! ### Values -/

/-- A literal is bound as it is, and a stored one is read back as what it stands for. -/
theorem Action.stored (self : Action) : ∃ literal : PgText, bindText self.asStr = .ok literal ∧
    Action.fromStr literal.val = .ok self ∧ isIn literal ["allow", "deny", "limit"] ∧
      isIn literal ["limit"] = decide (self = .Limit) := by
  cases self <;> exact ⟨⟨_, by decide⟩, rfl, rfl, rfl, rfl⟩

theorem TargetType.stored (self : TargetType) : ∃ literal : PgText,
    bindText self.asStr = .ok literal ∧ TargetType.fromStr literal.val = .ok self ∧
      isIn literal ["domain", "wildcard", "category"] := by
  cases self <;> exact ⟨⟨_, by decide⟩, rfl, rfl, rfl⟩

theorem Window.stored (self : Window) : ∃ literal : PgText, bindText self.asStr = .ok literal ∧
    Window.fromStr literal.val = .ok self ∧ isIn literal ["hour", "day", "week", "month"] := by
  cases self <;> exact ⟨⟨_, by decide⟩, rfl, rfl, rfl⟩

theorem UpstreamProtocol.stored (self : UpstreamProtocol) : ∃ literal : PgText,
    bindText self.asStr = .ok literal ∧ UpstreamProtocol.fromStr literal.val = .ok self ∧
      isIn literal ["dot", "doh", "udp"] := by
  cases self <;> exact ⟨⟨_, by decide⟩, rfl, rfl, rfl⟩

/-! ### Rows of new lists -/

/-- A limit rule with both its fields, or another rule. -/
def NewRule.Complete (self : NewRule) : Prop :=
  self.action = .Limit → self.limitCount.isSome ∧ self.limitWindow.isSome

def NulFreeUpstream (new : NewUpstream) : Prop :=
  NulFree new.name ∧ NulFree new.host ∧ ∀ addr ∈ new.addr, NulFree addr

namespace PostgresControlPlane

theorem limitWindow_stored (window : Option Window) : ∃ literal : Option PgText,
    (window.mapM fun w => bindText w.asStr) = .ok literal ∧
      (literal.mapM fun w => Window.fromStr w.val) = .ok window ∧
        literal.isSome = window.isSome ∧
          literal.all (isIn · ["hour", "day", "week", "month"]) := by
  cases window with
  | none => exact ⟨none, rfl, rfl, rfl, rfl⟩
  | some w =>
    obtain ⟨literal, hbind, hparse, hin⟩ := w.stored
    refine ⟨some literal, ?_, ?_, rfl, hin⟩
    · simp [hbind]
    · simp [hparse]

theorem addr_stored {addr : Option Text} (h : ∀ a ∈ addr, NulFree a) :
    ∃ stored : Option PgText, addr.mapM bindText = .ok stored ∧ stored.map Subtype.val = addr := by
  cases addr with
  | none => exact ⟨none, rfl, rfl⟩
  | some a =>
    refine ⟨some ⟨a, h a rfl⟩, ?_, rfl⟩
    simp [bindText_of_nulFree (h a rfl)]

/-- The row of a new upstream passes its check and reads back as the upstream. -/
theorem upstreamCols_spec (accountId : Option ℤ) (isPreset : Bool) {new : NewUpstream}
    (h : NulFreeUpstream new) : ∃ cols, upstreamCols accountId isPreset new = .ok cols ∧
      cols.accountId = accountId ∧ cols.isPreset = isPreset ∧ cols.name.val = new.name ∧
      brokenCheck cols.checks = none ∧
      ∀ id, upstreamFromRow ⟨id, cols⟩ = .ok
        { id, accountId, name := new.name, protocol := new.protocol, host := new.host
          port := new.port, addr := new.addr, isPreset } := by
  obtain ⟨protocol, hprotocol, hprotocol', hin⟩ := new.protocol.stored
  obtain ⟨addr, haddr, haddr'⟩ := addr_stored h.2.2
  refine ⟨⟨accountId, ⟨new.name, h.1⟩, protocol, ⟨new.host, h.2.1⟩, new.port.toNat, addr, isPreset⟩,
    ?_, rfl, rfl, rfl, ?_, fun id => ?_⟩
  · unfold upstreamCols
    rw [bindText_of_nulFree h.1, hprotocol, bindText_of_nulFree h.2.1, haddr]
    rfl
  · unfold brokenCheck UpstreamCols.checks
    simp [hin]
  · have hport : (0 : ℤ) ≤ new.port.toNat ∧ (new.port.toNat : ℤ) < 2 ^ 16 := by
      have := new.port.toNat_lt
      omega
    unfold upstreamFromRow
    simp only [hprotocol', if_pos hport, Int.toNat_natCast, UInt16.ofNat_toNat, haddr']
    simp only [bind, Except.bind, pure, Except.pure]

theorem ruleCols_accountId {accountId : ℤ} {position : ℕ} {new : NewRule} {cols : RuleCols}
    (h : ruleCols accountId position new = .ok cols) : cols.accountId = accountId := by
  unfold ruleCols at h
  obtain ⟨action, -, h⟩ := bind_ok_iff.mp h
  obtain ⟨targetType, -, h⟩ := bind_ok_iff.mp h
  obtain ⟨targetValue, -, h⟩ := bind_ok_iff.mp h
  obtain ⟨limitWindow, -, h⟩ := bind_ok_iff.mp h
  cases h
  rfl

/-- The row of a new rule: one check may refuse it, and it reads back as the rule. -/
theorem ruleCols_spec (accountId : ℤ) (position : ℕ) {new : NewRule}
    (h : NulFree new.targetValue) : ∃ cols, ruleCols accountId position new = .ok cols ∧
      cols.accountId = accountId ∧ (brokenCheck cols.checks = none ↔ new.Complete) ∧
      ∀ id, ruleFromRow ⟨id, cols⟩ = .ok
        { id, accountId, position := asI32 position, action := new.action
          targetType := new.targetType, targetValue := new.targetValue
          limitCount := new.limitCount, limitWindow := new.limitWindow, enabled := new.enabled } := by
  obtain ⟨action, haction, haction', hin, hlimit⟩ := new.action.stored
  obtain ⟨targetType, htype, htype', htin⟩ := new.targetType.stored
  obtain ⟨window, hwindow, hwindow', hsome, hwin⟩ := limitWindow_stored new.limitWindow
  refine ⟨⟨accountId, asI32 position, action, targetType, ⟨new.targetValue, h⟩, new.limitCount,
    window, new.enabled⟩, ?_, rfl, ?_, fun id => ?_⟩
  · unfold ruleCols
    rw [haction, htype, bindText_of_nulFree h, hwindow]
    rfl
  · unfold brokenCheck RuleCols.checks NewRule.Complete
    simp [hin, htin, hwin, hlimit, hsome]
    exact imp_iff_not_or.symm
  · unfold ruleFromRow
    simp only [haction', htype', hwindow']
    rfl

/-- A rule that is read back has the ids and the position of its row. -/
theorem ruleFromRow_ids {row : Row RuleCols} {rule : Rule} (h : ruleFromRow row = .ok rule) :
    rule.id = row.id ∧ rule.accountId = row.cols.accountId ∧
      rule.position = row.cols.position := by
  unfold ruleFromRow at h
  obtain ⟨action, -, h⟩ := bind_ok_iff.mp h
  obtain ⟨targetType, -, h⟩ := bind_ok_iff.mp h
  obtain ⟨limitWindow, -, h⟩ := bind_ok_iff.mp h
  cases h
  exact ⟨rfl, rfl, rfl⟩

theorem upstreamFromRow_ids {row : Row UpstreamCols} {up : Upstream}
    (h : upstreamFromRow row = .ok up) : up.id = row.id ∧ up.accountId = row.cols.accountId := by
  unfold upstreamFromRow at h
  obtain ⟨protocol, -, h⟩ := bind_ok_iff.mp h
  split_ifs at h with hport
  cases h
  exact ⟨rfl, rfl⟩

/-! ### The account of a write -/

theorem upsertAccount_none {db : Database} {n : PgText} (hnone : db.accountRow n = none) :
    (db.upsertAccount n).1 = db.accounts.serial + 1 ∧
      (db.upsertAccount n).2.accounts = db.accounts.insert ⟨n⟩ ∧
      (db.upsertAccount n).2.rules = db.rules ∧ (db.upsertAccount n).2.upstreams = db.upstreams ∧
      (db.upsertAccount n).2.quotaCounters = db.quotaCounters := by
  unfold upsertAccount
  split
  · rename_i hsome
    rw [hnone] at hsome
    cases hsome
  · exact ⟨rfl, rfl, rfl, rfl, rfl⟩

/-- The account is found, or created under the next id. -/
theorem accountIdOrCreate_cases (self : PostgresControlPlane) {n : Text} (h : NulFree n) :
    (∃ row, self.accountRow ⟨n, h⟩ = some row ∧
      accountIdOrCreate self n = (.ok row.id, self)) ∨
    (self.accountRow ⟨n, h⟩ = none ∧ ∃ self' : Database,
      accountIdOrCreate self n = (.ok (self.accounts.serial + 1), self') ∧
      self'.accounts = self.accounts.insert ⟨⟨n, h⟩⟩ ∧ self'.rules = Database.rules self ∧
      self'.upstreams = self.upstreams ∧ self'.quotaCounters = self.quotaCounters) := by
  unfold accountIdOrCreate
  rw [bindText_of_nulFree h]
  dsimp only
  cases hrow : self.accountRow ⟨n, h⟩ with
  | some row => exact .inl ⟨row, rfl, rfl⟩
  | none =>
    refine .inr ⟨rfl, ?_⟩
    obtain ⟨h₁, h₂⟩ := upsertAccount_none hrow
    exact ⟨(self.upsertAccount ⟨n, h⟩).2, by rw [← h₁], h₂⟩

theorem accountIdOrCreate_present (self : PostgresControlPlane) {n : Text} (h : NulFree n) :
    ∃ id self', accountIdOrCreate self n = (.ok id, self') ∧ Present self'.accounts.rows id := by
  rcases accountIdOrCreate_cases self h with ⟨row, hrow, hrun⟩ | ⟨-, self', hrun, haccounts, -⟩
  · exact ⟨row.id, self, hrun, row, List.mem_of_find?_eq_some hrow, rfl⟩
  · refine ⟨_, self', hrun, ⟨self.accounts.serial + 1, ⟨⟨n, h⟩⟩⟩, ?_, rfl⟩
    rw [haccounts]
    exact List.mem_append_right _ (List.mem_singleton.mpr rfl)

/-! ### The loop over new rules -/

structure RulesAdded (tx tx' : Database) (rows : List (Row RuleCols)) : Prop where
  accounts : tx'.accounts = tx.accounts
  rules : tx'.rules.rows = tx.rules.rows ++ rows
  serial : tx'.rules.serial = tx.rules.serial + rows.length
  upstreams : tx'.upstreams = tx.upstreams
  quotaCounters : tx'.quotaCounters = tx.quotaCounters

theorem RulesAdded.trans {tx tx' tx'' : Database} {rows rows' : List (Row RuleCols)}
    (h : RulesAdded tx tx' rows) (h' : RulesAdded tx' tx'' rows') :
    RulesAdded tx tx'' (rows ++ rows') where
  accounts := h'.accounts.trans h.accounts
  rules := by rw [h'.rules, h.rules, List.append_assoc]
  serial := by
    rw [h'.serial, h.serial, List.length_append]
    push_cast
    omega
  upstreams := h'.upstreams.trans h.upstreams
  quotaCounters := h'.quotaCounters.trans h.quotaCounters

theorem insertRule_ok {tx : Database} {cols : RuleCols} (hcheck : brokenCheck cols.checks = none)
    (haccount : Present tx.accounts.rows cols.accountId) : ∃ tx',
      tx.insertRule cols = (.ok (tx.rules.serial + 1), tx') ∧
        RulesAdded tx tx' [⟨tx.rules.serial + 1, cols⟩] := by
  unfold insertRule
  split
  · rename_i hname
    rw [hcheck] at hname
    cases hname
  · rw [dif_pos haccount]
    exact ⟨_, rfl, rfl, rfl, rfl, rfl, rfl⟩

theorem insertRule_refused (tx : Database) {cols : RuleCols}
    (hcheck : brokenCheck cols.checks ≠ none) : ∃ e tx', tx.insertRule cols = (.error e, tx') := by
  unfold insertRule
  split
  · exact ⟨_, _, rfl⟩
  · rename_i hnone
    exact absurd hnone hcheck

theorem insertRule_added {tx tx' : Database} {cols : RuleCols} {id : ℤ}
    (h : tx.insertRule cols = (.ok id, tx')) :
    RulesAdded tx tx' [⟨tx.rules.serial + 1, cols⟩] := by
  unfold insertRule at h
  split at h
  · cases h
  · split at h
    · cases h
      exact ⟨rfl, rfl, rfl, rfl, rfl⟩
    · cases h

/-- The rows that a loop adds are new ones of its account. -/
theorem insertRules_added {accountId : ℤ} {news : List NewRule} {position : ℕ} {tx tx' : Database}
    {out : List Rule} (h : insertRules accountId position news tx = (.ok out, tx')) :
    ∃ rows, RulesAdded tx tx' rows ∧
      ∀ row ∈ rows, row.cols.accountId = accountId ∧ tx.rules.serial < row.id := by
  induction news generalizing position tx out with
  | nil =>
    cases h
    refine ⟨[], ⟨rfl, (List.append_nil _).symm, (Int.add_zero _).symm, rfl, rfl⟩, ?_⟩
    simp
  | cons new news ih =>
    unfold insertRules at h
    split at h
    · cases h
    · rename_i cols hcols
      split at h
      · cases h
      · rename_i id tx₁ hinsert
        have hadded := insertRule_added hinsert
        have hserial : tx₁.rules.serial = tx.rules.serial + 1 := hadded.serial
        dsimp only at h
        split at h
        · cases h
        · rename_i rest tx₂ hloop
          cases h
          obtain ⟨rows, hadded', hrows⟩ := ih hloop
          refine ⟨_, hadded.trans hadded', List.forall_mem_cons.mpr ⟨⟨?_, ?_⟩, fun row hrow => ?_⟩⟩
          · exact ruleCols_accountId hcols
          · exact Int.lt_succ _
          · have := hrows row hrow
            exact ⟨this.1, by omega⟩

/-- Complete rules get the rows of the list the loop returns. -/
theorem insertRules_complete {accountId : ℤ} {news : List NewRule} (position : ℕ) (tx : Database)
    (haccount : Present tx.accounts.rows accountId)
    (hnews : ∀ new ∈ news, NulFree new.targetValue ∧ new.Complete) : ∃ tx' rows,
      insertRules accountId position news tx =
        (.ok (allotRules accountId tx.rules.serial position news).1, tx') ∧
      RulesAdded tx tx' rows ∧ List.Forall₂ (fun row rule => ruleFromRow row = .ok rule) rows
        (allotRules accountId tx.rules.serial position news).1 := by
  induction news generalizing position tx with
  | nil =>
    refine ⟨tx, [], rfl, ⟨rfl, ?_, ?_, rfl, rfl⟩, .nil⟩
    · rw [List.append_nil]
    · exact (Int.add_zero _).symm
  | cons new news ih =>
    obtain ⟨hnew, hrest⟩ := List.forall_mem_cons.mp hnews
    obtain ⟨cols, hcols, hid, hcheck, hread⟩ := ruleCols_spec accountId position hnew.1
    obtain ⟨tx₁, hinsert, hadded⟩ :=
      insertRule_ok (hcheck.mpr hnew.2) (hid.symm ▸ haccount : Present tx.accounts.rows cols.accountId)
    have hserial : tx₁.rules.serial = tx.rules.serial + 1 := hadded.serial
    obtain ⟨tx₂, rows, hloop, hadded', hrows⟩ :=
      ih (position + 1) tx₁ (hadded.accounts.symm ▸ haccount) hrest
    rw [hserial] at hloop hrows
    refine ⟨tx₂, _, ?_, hadded.trans hadded', ?_⟩
    · rw [insertRules, hcols]
      dsimp only
      rw [hinsert]
      dsimp only
      rw [hloop]
      rfl
    · exact .cons (hread _) hrows

/-- One rule that is not complete is enough to refuse the list. -/
theorem insertRules_refused {accountId : ℤ} {news : List NewRule} (position : ℕ) (tx : Database)
    (haccount : Present tx.accounts.rows accountId)
    (hnul : ∀ new ∈ news, NulFree new.targetValue) (hnews : ∃ new ∈ news, ¬ new.Complete) :
    ∃ e tx', insertRules accountId position news tx = (.error e, tx') := by
  induction news generalizing position tx with
  | nil =>
    obtain ⟨new, hnew, -⟩ := hnews
    cases hnew
  | cons new news ih =>
    obtain ⟨hnew, hrest⟩ := List.forall_mem_cons.mp hnul
    obtain ⟨cols, hcols, hid, hcheck, -⟩ := ruleCols_spec accountId position hnew
    rw [insertRules, hcols]
    dsimp only
    by_cases hcomplete : new.Complete
    · obtain ⟨tx₁, hinsert, hadded⟩ :=
        insertRule_ok (hcheck.mpr hcomplete)
          (hid.symm ▸ haccount : Present tx.accounts.rows cols.accountId)
      have hlater : ∃ new ∈ news, ¬ new.Complete := by
        obtain ⟨new', hmem, hnot⟩ := hnews
        rcases List.mem_cons.mp hmem with rfl | hmem
        · exact absurd hcomplete hnot
        · exact ⟨new', hmem, hnot⟩
      obtain ⟨e, tx₂, hloop⟩ := ih (position + 1) tx₁ (hadded.accounts.symm ▸ haccount) hrest hlater
      rw [hinsert]
      dsimp only
      rw [hloop]
      exact ⟨_, _, rfl⟩
    · obtain ⟨e, tx₁, hinsert⟩ := insertRule_refused tx (mt hcheck.mp hcomplete)
      rw [hinsert]
      exact ⟨_, _, rfl⟩

/-! ### The loop over new upstreams -/

structure UpstreamsAdded (tx tx' : Database) (rows : List (Row UpstreamCols)) : Prop where
  accounts : tx'.accounts = tx.accounts
  rules : tx'.rules = tx.rules
  upstreams : tx'.upstreams.rows = tx.upstreams.rows ++ rows
  serial : tx'.upstreams.serial = tx.upstreams.serial + rows.length
  quotaCounters : tx'.quotaCounters = tx.quotaCounters

theorem UpstreamsAdded.trans {tx tx' tx'' : Database} {rows rows' : List (Row UpstreamCols)}
    (h : UpstreamsAdded tx tx' rows) (h' : UpstreamsAdded tx' tx'' rows') :
    UpstreamsAdded tx tx'' (rows ++ rows') where
  accounts := h'.accounts.trans h.accounts
  rules := h'.rules.trans h.rules
  upstreams := by rw [h'.upstreams, h.upstreams, List.append_assoc]
  serial := by
    rw [h'.serial, h.serial, List.length_append]
    push_cast
    omega
  quotaCounters := h'.quotaCounters.trans h.quotaCounters

def NameFree (tx : Database) (accountId : ℤ) (name : Text) : Prop :=
  ∀ row ∈ tx.upstreams.rows, row.cols.accountId = some accountId → row.cols.name.val ≠ name

theorem nameFree_deleteUpstreams (db : Database) (id : ℤ) (name : Text) :
    NameFree (db.deleteUpstreams id) id name := by
  intro row hrow hid
  have hkept := (List.mem_filter.mp hrow).2
  simp [hid] at hkept

theorem upstreamConflict_none_iff (tx : Database) {cols : UpstreamCols} {accountId : ℤ}
    (hid : cols.accountId = some accountId) (hpreset : cols.isPreset = false) :
    tx.upstreamConflict cols = none ↔ NameFree tx accountId cols.name.val := by
  unfold upstreamConflict NameFree
  rw [List.findSome?_eq_none_iff]
  refine forall₂_congr fun row _ => ?_
  unfold UpstreamCols.conflict
  rw [hid, hpreset]
  have hsame : cols.name = row.cols.name ↔ row.cols.name.val = cols.name.val :=
    eq_comm.trans Subtype.ext_iff
  have hid' : some accountId = row.cols.accountId ↔ row.cols.accountId = some accountId := eq_comm
  simp [hsame, hid']

theorem insertUpstream_ok {tx : Database} {cols : UpstreamCols} {accountId : ℤ}
    (hcheck : brokenCheck cols.checks = none) (hid : cols.accountId = some accountId)
    (hkey : tx.upstreamConflict cols = none) (haccount : Present tx.accounts.rows accountId) :
    ∃ tx', tx.insertUpstream cols = (.ok (tx.upstreams.serial + 1), tx') ∧
      UpstreamsAdded tx tx' [⟨tx.upstreams.serial + 1, cols⟩] := by
  have hfkey : ∀ id ∈ cols.accountId, Present tx.accounts.rows id := by
    intro id hmem
    rw [hid] at hmem
    cases hmem
    exact haccount
  unfold insertUpstream
  split
  · rename_i hname
    rw [hcheck] at hname
    cases hname
  · split
    · rename_i hname
      rw [hkey] at hname
      cases hname
    · rw [dif_pos hfkey]
      exact ⟨_, rfl, rfl, rfl, rfl, rfl, rfl⟩

theorem insertUpstream_refused {tx : Database} {cols : UpstreamCols}
    (hkey : tx.upstreamConflict cols ≠ none) :
    ∃ e tx', tx.insertUpstream cols = (.error e, tx') := by
  unfold insertUpstream
  split
  · exact ⟨_, _, rfl⟩
  · split
    · exact ⟨_, _, rfl⟩
    · rename_i hnone
      exact absurd hnone hkey

/-- After an insertion the account has one more name. -/
theorem UpstreamsAdded.nameFree_iff {tx tx' : Database} {row : Row UpstreamCols}
    (h : UpstreamsAdded tx tx' [row]) {accountId : ℤ} (hid : row.cols.accountId = some accountId)
    (name : Text) :
    NameFree tx' accountId name ↔ NameFree tx accountId name ∧ row.cols.name.val ≠ name := by
  unfold NameFree
  rw [h.upstreams, List.forall_mem_append, List.forall_mem_singleton]
  exact and_congr_right fun _ => ⟨fun hne => hne hid, fun hne _ => hne⟩

/-- Names that differ from each other and from those there get the rows of the list the loop
returns. -/
theorem insertUpstreams_distinct {accountId : ℤ} {news : List NewUpstream} (tx : Database)
    (haccount : Present tx.accounts.rows accountId) (hnul : ∀ new ∈ news, NulFreeUpstream new)
    (hnames : (news.map NewUpstream.name).Nodup)
    (hfree : ∀ new ∈ news, NameFree tx accountId new.name) : ∃ tx' rows,
      insertUpstreams accountId news tx =
        (.ok (allotUpstreams (some accountId) false tx.upstreams.serial news).1, tx') ∧
      UpstreamsAdded tx tx' rows ∧ List.Forall₂ (fun row up => upstreamFromRow row = .ok up) rows
        (allotUpstreams (some accountId) false tx.upstreams.serial news).1 := by
  induction news generalizing tx with
  | nil =>
    refine ⟨tx, [], rfl, ⟨rfl, rfl, ?_, ?_, rfl⟩, .nil⟩
    · rw [List.append_nil]
    · exact (Int.add_zero _).symm
  | cons new news ih =>
    obtain ⟨hnew, hrest⟩ := List.forall_mem_cons.mp hnul
    obtain ⟨hfirst, hlater⟩ := List.forall_mem_cons.mp hfree
    obtain ⟨hnotin, hdistinct⟩ := List.nodup_cons.mp hnames
    obtain ⟨cols, hcols, hid, hpreset, hname, hcheck, hread⟩ :=
      upstreamCols_spec (some accountId) false hnew
    obtain ⟨tx₁, hinsert, hadded⟩ := insertUpstream_ok hcheck hid
      ((upstreamConflict_none_iff tx hid hpreset).mpr (hname.symm ▸ hfirst)) haccount
    have hserial : tx₁.upstreams.serial = tx.upstreams.serial + 1 := hadded.serial
    have hfree₁ : ∀ new' ∈ news, NameFree tx₁ accountId new'.name := fun new' hmem =>
      (hadded.nameFree_iff hid new'.name).mpr ⟨hlater new' hmem, fun heq =>
        hnotin (List.mem_map.mpr ⟨new', hmem, heq.symm.trans hname⟩)⟩
    obtain ⟨tx₂, rows, hloop, hadded', hrows⟩ :=
      ih tx₁ (hadded.accounts.symm ▸ haccount) hrest hdistinct hfree₁
    rw [hserial] at hloop hrows
    refine ⟨tx₂, _, ?_, hadded.trans hadded', ?_⟩
    · rw [insertUpstreams, hcols]
      dsimp only
      rw [hinsert]
      dsimp only
      rw [hloop]
      rfl
    · exact .cons (hread _) hrows

/-- A name that is taken, or given twice, is enough to refuse the list. -/
theorem insertUpstreams_refused {accountId : ℤ} {news : List NewUpstream} (tx : Database)
    (haccount : Present tx.accounts.rows accountId) (hnul : ∀ new ∈ news, NulFreeUpstream new)
    (hnames : ¬ ((news.map NewUpstream.name).Nodup ∧
      ∀ new ∈ news, NameFree tx accountId new.name)) :
    ∃ e tx', insertUpstreams accountId news tx = (.error e, tx') := by
  induction news generalizing tx with
  | nil => exact absurd ⟨List.nodup_nil, by simp⟩ hnames
  | cons new news ih =>
    obtain ⟨hnew, hrest⟩ := List.forall_mem_cons.mp hnul
    obtain ⟨cols, hcols, hid, hpreset, hname, hcheck, -⟩ :=
      upstreamCols_spec (some accountId) false hnew
    have hconflict := hname ▸ upstreamConflict_none_iff tx hid hpreset
    rw [insertUpstreams, hcols]
    dsimp only
    by_cases hfirst : NameFree tx accountId new.name
    · obtain ⟨tx₁, hinsert, hadded⟩ :=
        insertUpstream_ok hcheck hid (hconflict.mpr hfirst) haccount
      have hlater : ¬ ((news.map NewUpstream.name).Nodup ∧
          ∀ new' ∈ news, NameFree tx₁ accountId new'.name) := by
        rintro ⟨hdistinct, hfree⟩
        refine hnames ⟨List.nodup_cons.mpr ⟨fun hmem => ?_, hdistinct⟩,
          List.forall_mem_cons.mpr ⟨hfirst, fun new' hmem => ?_⟩⟩
        · obtain ⟨new', hmem', heq⟩ := List.mem_map.mp hmem
          exact ((hadded.nameFree_iff hid new'.name).mp (hfree new' hmem')).2 (hname.trans heq.symm)
        · exact ((hadded.nameFree_iff hid new'.name).mp (hfree new' hmem)).1
      obtain ⟨e, tx₂, hloop⟩ := ih tx₁ (hadded.accounts.symm ▸ haccount) hrest hlater
      rw [hinsert]
      dsimp only
      rw [hloop]
      exact ⟨_, _, rfl⟩
    · obtain ⟨e, tx₁, hinsert⟩ := insertUpstream_refused (mt hconflict.mp hfirst)
      rw [hinsert]
      exact ⟨_, _, rfl⟩

end PostgresControlPlane

end Brdns
