import Brdns.Proofs.Snapshots
import Brdns.Spec.ControlPlane

/-! The snapshot against the reads for one account. Rules read back because the constraints of the
table admit only known literals; upstreams, because only the control plane writes them. -/

namespace Brdns

open Lib Lib.Fold Database

/-! ### Rules read back -/

theorem isIn_iff {value : PgText} {literals : List String} :
    isIn value literals = true ↔ ∃ literal ∈ literals, value.val = literal.toList := by
  simp [isIn]

/-- A literal that a check admits is one that the parser of its enumeration knows. -/
theorem parseEnum_ok {α : Type} (name : String) {variants : List (String × α)} {value : PgText}
    (h : isIn value (variants.map Prod.fst) = true) :
    ∃ v, parseEnum name variants value.val = .ok v := by
  obtain ⟨literal, hmem, hvalue⟩ := isIn_iff.mp h
  obtain ⟨variant, hvariant, rfl⟩ := List.mem_map.mp hmem
  have hfind : (variants.find? fun v => v.1.toList = value.val).isSome = true := by
    rw [List.find?_isSome]
    exact ⟨variant, hvariant, by simp [hvalue]⟩
  obtain ⟨found, hfound⟩ := Option.isSome_iff_exists.mp hfind
  refine ⟨found.2, ?_⟩
  rw [parseEnum, hfound]

theorem checks_hold {checks : List (String × Bool)} (h : brokenCheck checks = none) :
    ∀ check ∈ checks, check.2 = true := by
  rw [brokenCheck, Option.map_eq_none_iff, List.find?_eq_none] at h
  exact fun check hcheck => by simpa using h check hcheck

namespace PostgresControlPlane

theorem ruleFromRow_ok {row : Row RuleCols} (h : brokenCheck row.cols.checks = none) :
    ∃ rule, ruleFromRow row = .ok rule := by
  have hall := checks_hold h
  simp only [RuleCols.checks, List.forall_mem_cons] at hall
  obtain ⟨haction, -, hwindow, htype, -⟩ := hall
  obtain ⟨action, haction⟩ : ∃ action, Action.fromStr row.cols.action.val = .ok action :=
    parseEnum_ok "Action" haction
  obtain ⟨targetType, htype⟩ : ∃ targetType,
      TargetType.fromStr row.cols.targetType.val = .ok targetType :=
    parseEnum_ok "TargetType" htype
  obtain ⟨window, hwindow⟩ : ∃ window,
      (row.cols.limitWindow.mapM fun w => Window.fromStr w.val) = .ok window := by
    cases hstored : row.cols.limitWindow with
    | none => exact ⟨none, rfl⟩
    | some literal =>
      rw [hstored, Option.all_some] at hwindow
      obtain ⟨window, hwindow⟩ : ∃ window, Window.fromStr literal.val = .ok window :=
        parseEnum_ok "Window" hwindow
      refine ⟨some window, ?_⟩
      simp [hwindow]
  unfold ruleFromRow
  rw [haction, htype, hwindow]
  exact ⟨_, rfl⟩

/-! ### Upstreams read back -/

/-- A port that fits, and an owner unless the upstream is a preset. -/
structure SoundUpstream (cols : UpstreamCols) : Prop where
  port : 0 ≤ cols.port ∧ cols.port < 2 ^ 16
  preset : cols.isPreset = cols.accountId.isNone

theorem upstreamCols_sound {accountId : Option ℤ} {new : NewUpstream} {cols : UpstreamCols}
    (h : upstreamCols accountId accountId.isNone new = .ok cols) : SoundUpstream cols := by
  unfold upstreamCols at h
  obtain ⟨name, -, h⟩ := bind_ok_iff.mp h
  obtain ⟨protocol, -, h⟩ := bind_ok_iff.mp h
  obtain ⟨host, -, h⟩ := bind_ok_iff.mp h
  obtain ⟨addr, -, h⟩ := bind_ok_iff.mp h
  cases h
  have hport := new.port.toNat_lt
  refine ⟨⟨?_, ?_⟩, rfl⟩
  · exact Int.natCast_nonneg _
  · dsimp only
    omega

theorem upstreamFromRow_ok {row : Row UpstreamCols} (hcheck : brokenCheck row.cols.checks = none)
    (h : SoundUpstream row.cols) : ∃ up, upstreamFromRow row = .ok up ∧
      up.isPreset = row.cols.isPreset := by
  have hall := checks_hold hcheck
  simp only [UpstreamCols.checks, List.forall_mem_cons] at hall
  obtain ⟨protocol, hprotocol⟩ : ∃ protocol,
      UpstreamProtocol.fromStr row.cols.protocol.val = .ok protocol :=
    parseEnum_ok "UpstreamProtocol" hall.1
  unfold upstreamFromRow
  rw [hprotocol]
  change ∃ up, (if 0 ≤ row.cols.port ∧ row.cols.port < 2 ^ 16 then _ else _) = _ ∧ _
  rw [if_pos h.port]
  exact ⟨_, rfl, rfl⟩

def SoundUpstreams (db : Database) : Prop := ∀ row ∈ db.upstreams.rows, SoundUpstream row.cols

theorem SoundUpstreams.of_rows {db db' : Database} (h : SoundUpstreams db)
    (hrows : db'.upstreams.rows = db.upstreams.rows) : SoundUpstreams db' := by
  intro row hrow
  rw [hrows] at hrow
  exact h row hrow

/-! ### What every call keeps -/

section

variable {db : Database}

theorem SoundUpstreams.insertUpstream (h : SoundUpstreams db) {cols : UpstreamCols}
    (hcols : SoundUpstream cols) : SoundUpstreams (db.insertUpstream cols).2 := by
  unfold Database.insertUpstream
  dsimp only
  split
  · exact h.of_rows rfl
  · split
    · exact h.of_rows rfl
    · split
      · intro row hrow
        rcases List.mem_append.mp hrow with hold | hnew
        · exact h row hold
        · rw [List.mem_singleton.mp hnew]
          exact hcols
      · exact h.of_rows rfl

theorem SoundUpstreams.seedPresets (presets : List NewUpstream) (h : SoundUpstreams db) :
    SoundUpstreams (seedPresets presets db).2 := by
  induction presets generalizing db with
  | nil => exact h
  | cons preset presets ih =>
    have hseed : SoundUpstreams (seedPreset db preset).2 := by
      unfold seedPreset
      cases hcols : upstreamCols none true preset with
      | error e => exact h
      | ok cols =>
        dsimp only
        unfold insertUpstreamUnlessConflict
        split
        · exact h.of_rows rfl
        · exact h.insertUpstream (upstreamCols_sound hcols)
    unfold PostgresControlPlane.seedPresets
    generalize seedPreset db preset = seeded at hseed ⊢
    obtain ⟨result, db'⟩ := seeded
    cases result with
    | error e => exact hseed
    | ok u => exact ih hseed

theorem upstreams_accountIdOrCreate (db : Database) (n : Text) :
    (accountIdOrCreate db n).2.upstreams = db.upstreams := by
  unfold accountIdOrCreate
  cases bindText n with
  | error e => rfl
  | ok number =>
    dsimp only
    cases hrow : db.accountRow number with
    | some row => rfl
    | none => exact (upsertAccount_none hrow).2.2.2.1

theorem upstreams_replaceRules (db : Database) (n : Text) (news : List NewRule) :
    (replaceRules db n news).2.upstreams.rows = db.upstreams.rows := by
  have haccount := congrArg Table.rows (upstreams_accountIdOrCreate db n)
  unfold replaceRules
  generalize accountIdOrCreate db n = created at haccount ⊢
  obtain ⟨result, db'⟩ := created
  cases result with
  | error e => exact haccount
  | ok id =>
    dsimp only at haccount ⊢
    cases hloop : insertRules id 0 news (db'.deleteRules id) with
    | mk result' tx =>
      cases result' with
      | error e => exact haccount
      | ok out =>
        obtain ⟨rows, hadded, -⟩ := insertRules_added hloop
        exact (congrArg Table.rows hadded.upstreams).trans haccount

theorem SoundUpstreams.insertUpstreams (id : ℤ) (news : List NewUpstream) (h : SoundUpstreams db) :
    SoundUpstreams (insertUpstreams id news db).2 := by
  induction news generalizing db with
  | nil => exact h
  | cons new news ih =>
    unfold PostgresControlPlane.insertUpstreams
    cases hcols : upstreamCols (some id) false new with
    | error e => exact h
    | ok cols =>
      have hinsert := h.insertUpstream (upstreamCols_sound hcols)
      dsimp only
      generalize db.insertUpstream cols = inserted at hinsert ⊢
      obtain ⟨result, tx⟩ := inserted
      cases result with
      | error e => exact hinsert
      | ok id' =>
        have hrest := ih hinsert
        dsimp only
        generalize PostgresControlPlane.insertUpstreams id news tx = looped at hrest ⊢
        obtain ⟨result', tx'⟩ := looped
        cases result' <;> exact hrest

theorem SoundUpstreams.replaceUpstreams (n : Text) (news : List NewUpstream)
    (h : SoundUpstreams db) : SoundUpstreams (replaceUpstreams db n news).2 := by
  have haccount := h.of_rows (congrArg Table.rows (upstreams_accountIdOrCreate db n))
  unfold PostgresControlPlane.replaceUpstreams
  generalize accountIdOrCreate db n = created at haccount ⊢
  obtain ⟨result, db'⟩ := created
  cases result with
  | error e => exact haccount
  | ok id =>
    have hdelete : SoundUpstreams (db'.deleteUpstreams id) :=
      fun row hrow => haccount row (List.mem_filter.mp hrow).1
    have hloop := hdelete.insertUpstreams id news
    dsimp only
    generalize PostgresControlPlane.insertUpstreams id news (db'.deleteUpstreams id) = looped
      at hloop ⊢
    obtain ⟨result', tx⟩ := looped
    cases result' with
    | error e => exact haccount.of_rows rfl
    | ok out => exact hloop

theorem upstreams_recordQuota (db : Database) (n : Text) (ruleId limitCount : ℤ) (window : Window)
    (now : ℤ) : (recordQuota db n ruleId limitCount window now).2.upstreams = db.upstreams := by
  have hcounter (id ws : ℤ) : (db.upsertCounter id ruleId ws limitCount).2.upstreams =
      db.upstreams := by
    unfold upsertCounter
    dsimp only
    split
    · split <;> rfl
    · split
      · split <;> rfl
      · rfl
  unfold recordQuota
  split
  · rfl
  · split
    · rfl
    · rfl
    · split
      · rfl
      · exact hcounter _ _

/-- What the control plane leaves in the table of upstreams. -/
theorem Reachable.soundUpstreams (h : Reachable db) : SoundUpstreams db := by
  induction h with
  | empty => exact fun row hrow => absurd hrow List.not_mem_nil
  | connect _ ih => exact ih.seedPresets presetUpstreamsDefault
  | write w _ ih =>
    cases w with
    | createAccount n => exact ih.of_rows (congrArg Table.rows (upstreams_accountIdOrCreate _ n))
    | replaceRules n news => exact ih.of_rows (upstreams_replaceRules _ n news)
    | replaceUpstreams n news => exact ih.replaceUpstreams n news
    | recordQuota n ruleId limitCount window now =>
      exact ih.of_rows
        (congrArg Table.rows (upstreams_recordQuota _ n ruleId limitCount window now))
  | skip gap _ ih => exact ih.of_rows rfl

/-! ### One account -/

/-- The global scan and the scan of one account read its rules in the same order. -/
theorem snapshotRules_orderBy (db : Database) (id : ℤ) : snapshotRules db id =
    Table.orderBy RuleCols.position (db.rules.select fun r => r.accountId = id) := by
  unfold snapshotRules
  rw [Table.filter_orderBy_comm]
  apply Table.orderBy_congr
  intro r hr r' hr'
  have hr : r.cols.accountId = id := by simpa using (List.mem_filter.mp hr).2
  have hr' : r'.cols.accountId = id := by simpa using (List.mem_filter.mp hr').2
  rw [Prod.Lex.toLex_le_toLex, hr, hr']
  simp

variable {n : Text} {row : Row AccountCols} {policy : AccountPolicy}

theorem rules_of_reads (hrow : db.accountNamed n = some row) (h : Reads db row policy) :
    rules db n = .ok policy.rules := by
  have hn : NulFree n := (accountNamed_spec hrow).2 ▸ row.cols.accountNumber.property
  have hrules := h.rules
  rw [snapshotRules_orderBy, ← mapM_ok_iff] at hrules
  unfold PostgresControlPlane.rules
  rw [accountId_named db hn, hrow]
  exact hrules

theorem activeUpstream_of_reads (hrow : db.accountNamed n = some row) (h : Reads db row policy) :
    activeUpstream db n = .ok policy.upstream := by
  have hn : NulFree n := (accountNamed_spec hrow).2 ▸ row.cols.accountNumber.property
  have hup := h.upstream
  unfold PostgresControlPlane.activeUpstream
  rw [accountId_named db hn, hrow]
  change (upstreamRows db row.id).head?.mapM upstreamFromRow = .ok policy.upstream
  generalize (upstreamRows db row.id).head? = first at hup ⊢
  generalize policy.upstream = stored at hup ⊢
  cases hup with
  | none => rfl
  | some hread => simp [hread]

/-- The upstream of a policy is one of the account's own. -/
theorem upstream_of_reads (hsound : SoundUpstreams db) (h : Reads db row policy) :
    ∀ up ∈ policy.upstream, up.isPreset = false ∧ up.accountId = some row.id := by
  intro up hmem
  have hup := h.upstream
  rw [Option.mem_def.mp hmem] at hup
  cases hfirst : (upstreamRows db row.id).head? with
  | none =>
    rw [hfirst] at hup
    cases hup
  | some first =>
    rw [hfirst] at hup
    cases hup with
    | some hread =>
      obtain ⟨hstored, howner⟩ := List.mem_filter.mp (List.mem_of_mem_head? hfirst)
      have howner : first.cols.accountId = some row.id := by simpa using howner
      obtain ⟨up', hread', hpreset⟩ :=
        upstreamFromRow_ok (db.constraints.upstreams_check first hstored) (hsound first hstored)
      cases hread.symm.trans hread'
      refine ⟨?_, (upstreamFromRow_ids hread).2.trans howner⟩
      rw [hpreset, (hsound first hstored).preset, howner]
      rfl

end

end PostgresControlPlane

/-! ### The memory store -/

namespace InMemControlPlane

def OwnUpstreams (self : InMemControlPlane) : Prop := ∀ n rec, self.accounts.lookup n = some rec →
  ∀ up ∈ rec.upstreams, up.isPreset = false ∧ up.accountId.isSome = true

variable {self : InMemControlPlane}

theorem OwnUpstreams.insert (h : OwnUpstreams self) {self' : InMemControlPlane} {n : Text}
    {rec : AccountRecord} (haccounts : self'.accounts = self.accounts.insert n rec)
    (hrec : ∀ up ∈ rec.upstreams, up.isPreset = false ∧ up.accountId.isSome = true) :
    OwnUpstreams self' := by
  intro n' rec' hrec'
  rw [haccounts, HashMap.lookup_insert] at hrec'
  split_ifs at hrec' with hn
  · cases hrec'
    exact hrec
  · exact h n' rec' hrec'

theorem allotUpstreams_own (id nextId : ℤ) (news : List NewUpstream) :
    ∀ up ∈ (allotUpstreams (some id) false nextId news).1,
      up.isPreset = false ∧ up.accountId.isSome = true := by
  induction news generalizing nextId with
  | nil => exact fun up hup => absurd hup List.not_mem_nil
  | cons new news ih => exact List.forall_mem_cons.mpr ⟨⟨rfl, rfl⟩, ih (nextId + 1)⟩

theorem OwnUpstreams.getOrCreate (h : OwnUpstreams self) (n : Text) :
    OwnUpstreams (self.getOrCreate n).2 := by
  unfold InMemControlPlane.getOrCreate
  cases self.accounts.lookup n with
  | some rec => exact h
  | none => exact h.insert rfl fun up hup => absurd hup List.not_mem_nil

theorem OwnUpstreams.storeRules (h : OwnUpstreams self) (account : Account) (n : Text)
    (news : List NewRule) : OwnUpstreams (self.storeRules account n news).2 := by
  unfold InMemControlPlane.storeRules
  dsimp only
  cases hrec : self.accounts.lookup n with
  | none => exact h
  | some rec => exact h.insert rfl (h n rec hrec)

theorem OwnUpstreams.storeUpstreams (h : OwnUpstreams self) (account : Account) (n : Text)
    (news : List NewUpstream) : OwnUpstreams (self.storeUpstreams account n news).2 := by
  unfold InMemControlPlane.storeUpstreams
  dsimp only
  cases self.accounts.lookup n with
  | none => exact h
  | some rec => exact h.insert rfl (allotUpstreams_own account.id self.nextUpstreamId news)

theorem Reachable.ownUpstreams (h : Reachable self) : OwnUpstreams self := by
  induction h with
  | default =>
    intro n rec hrec
    cases hrec
  | getOrCreate n _ ih => exact ih.getOrCreate n
  | storeRules news _ _ ih => exact ih.storeRules _ _ news
  | storeUpstreams news _ _ ih => exact ih.storeUpstreams _ _ news
  | @recordQuota self n ruleId limitCount window now _ ih =>
    obtain ⟨quota, hquota⟩ := (self.recordQuota_run n ruleId limitCount window now).frame
    rw [hquota]
    exact ih
  | replaceCategories categories now _ ih => exact ih

end InMemControlPlane

/-! ### Both stores -/

def PostgresControlPlane.Stores (db : PostgresControlPlane) (n : Text) : Prop :=
  ∃ row ∈ db.accounts.rows, row.cols.accountNumber.val = n

def InMemControlPlane.Stores (self : InMemControlPlane) (n : Text) : Prop := n ∈ self.accounts

/-- The snapshot succeeds, has exactly the stored accounts, and says for each of them what the
reads of its rules and of its upstream say. -/
def SnapshotAgrees {σ : Type} (store : ControlPlane σ) (stores : σ → Text → Prop) (self : σ) :
    Prop :=
  ∃ snapshot, store.snapshot self = .ok snapshot ∧ (∀ n, n ∈ snapshot ↔ stores self n) ∧
    ∀ n policy, snapshot.lookup n = some policy →
      store.rules self n = .ok policy.rules ∧ store.activeUpstream self n = .ok policy.upstream ∧
        ∀ up ∈ policy.upstream, up.isPreset = false ∧ up.accountId.isSome = true

theorem PostgresControlPlane.Reachable.snapshotAgrees {db : PostgresControlPlane}
    (h : Reachable db) : SnapshotAgrees controlPlane Stores db := by
  have hsound := h.soundUpstreams
  obtain ⟨snapshot, hsnapshot⟩ : ∃ snapshot, PostgresControlPlane.snapshot db = .ok snapshot := by
    apply snapshot_ok
    · exact fun row hrow => ruleFromRow_ok (db.constraints.rules_check row hrow)
    · intro row hrow _
      obtain ⟨up, hup, -⟩ :=
        upstreamFromRow_ok (db.constraints.upstreams_check row hrow) (hsound row hrow)
      exact ⟨up, hup⟩
  refine ⟨snapshot, hsnapshot, fun n => ?_, fun n policy hpolicy => ?_⟩
  · have hreads := snapshot_reads hsnapshot n
    rw [← Finmap.lookup_isSome]
    cases hnamed : db.accountNamed n with
    | none =>
      rw [hnamed] at hreads
      generalize snapshot.lookup n = found at hreads ⊢
      cases hreads with
      | none =>
        refine iff_of_false Bool.false_ne_true ?_
        rintro ⟨row, hrow, rfl⟩
        rw [accountNamed_of_mem hrow] at hnamed
        cases hnamed
    | some row =>
      rw [hnamed] at hreads
      generalize snapshot.lookup n = found at hreads ⊢
      cases hreads with
      | some _ => exact iff_of_true rfl ⟨row, accountNamed_spec hnamed⟩
  · have hreads := snapshot_reads hsnapshot n
    rw [hpolicy] at hreads
    generalize hnamed : db.accountNamed n = found at hreads
    cases hreads with
    | some hreads =>
      refine ⟨rules_of_reads hnamed hreads, activeUpstream_of_reads hnamed hreads, ?_⟩
      intro up hup
      obtain ⟨hpreset, howner⟩ := upstream_of_reads hsound hreads up hup
      rw [howner]
      exact ⟨hpreset, rfl⟩

theorem InMemControlPlane.Reachable.snapshotAgrees {self : InMemControlPlane}
    (h : Reachable self) : SnapshotAgrees controlPlane Stores self := by
  refine ⟨self.snapshot, rfl, fun n => ?_, fun n policy hpolicy => ?_⟩
  · rw [← Finmap.lookup_isSome, InMemControlPlane.snapshot, HashMap.lookup_mapVal,
      Option.isSome_map, Finmap.lookup_isSome]
    rfl
  · rw [InMemControlPlane.snapshot, HashMap.lookup_mapVal, Option.map_eq_some_iff] at hpolicy
    obtain ⟨rec, hrec, rfl⟩ := hpolicy
    refine ⟨?_, ?_, fun up hup => ?_⟩
    · change Except.ok (self.rules n) = _
      rw [InMemControlPlane.rules, hrec]
      rfl
    · change Except.ok (self.activeUpstream n) = _
      rw [InMemControlPlane.activeUpstream, hrec]
      rfl
    · exact h.ownUpstreams n rec hrec up (List.mem_of_mem_head? hup)

/-- In every state that either store can reach, the snapshot agrees with the reads for each
account. -/
theorem snapshot_agrees :
    (∀ db, PostgresControlPlane.Reachable db → SnapshotAgrees PostgresControlPlane.controlPlane
      PostgresControlPlane.Stores db) ∧
    ∀ self, InMemControlPlane.Reachable self → SnapshotAgrees InMemControlPlane.controlPlane
      InMemControlPlane.Stores self :=
  ⟨fun _ h => h.snapshotAgrees, fun _ h => h.snapshotAgrees⟩

/-- An account with a rule, and an account without any. -/
theorem snapshot_agrees_alice :
    SnapshotAgrees PostgresControlPlane.controlPlane PostgresControlPlane.Stores
      (PostgresControlPlane.controlPlane.write PostgresControlPlane.init
        (.replaceRules "alice".toList [⟨.Deny, .Domain, "a.com".toList, none, none, true⟩])) ∧
    SnapshotAgrees InMemControlPlane.controlPlane InMemControlPlane.Stores
      (InMemControlPlane.default.getOrCreate "alice".toList).2 :=
  ⟨snapshot_agrees.1 _ (.write _ (.connect .empty)), snapshot_agrees.2 _ (.getOrCreate _ .default)⟩

end Brdns
