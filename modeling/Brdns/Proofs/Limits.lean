import Brdns.Proofs.InForce

/-! Limits while everything runs. A tally beside a run counts the queries that went out under each
rule in each window. The counters of either store are that tally, so a query that waits for its
quota goes out exactly when fewer went out before it than its limit says. -/

namespace Brdns

open Lib Database

/-! ### Tallies -/

/-- Queries admitted, by rule id and window start. -/
abbrev Tally := ℤ → ℤ → ℕ

namespace Tally

def empty : Tally := fun _ _ => 0

def bump (self : Tally) (id ws : ℤ) : Tally := fun id' ws' =>
  self id' ws' + if id' = id ∧ ws' = ws then 1 else 0

/-- The tally after an input: a charge that sends its query counts, in the window of its clock. A
start forgets what the store forgets. -/
def after {σ ω : Type} (durable : Bool) (self : Tally) (s : Runtime σ) :
    Input ω → Reaction → Tally
  | .recordQuota task _ now, .sends _ _ _ =>
    match s.flights.lookup task with
    | some ⟨_, _, .recordQuota id _ window⟩ =>
      match Quota.windowStart now window with
      | .ok ws => self.bump id ws
      | .error _ => self
    | _ => self
  | .restart _, _ => if durable then self else empty
  | _, _ => self

end Tally

/-! ### What a store meters -/

/-- The states whose counters are a tally, the accounts that are charged, and the rules that can be
counted for. -/
structure Meter (σ : Type) where
  Tallied : Tally → σ → Prop
  Known : σ → Text → Prop
  Countable : σ → ℤ → Prop

namespace Meter

variable {σ : Type} (m : Meter σ)

/-- Nothing is charged on the way to a later state. -/
structure Follows (s s' : σ) : Prop where
  tallied : ∀ t, m.Tallied t s → m.Tallied t s'
  known : ∀ n, m.Known s n → m.Known s' n

theorem Follows.refl (s : σ) : m.Follows s s := ⟨fun _ h => h, fun _ h => h⟩

variable {m} in
theorem Follows.trans {s s' s'' : σ} (h : m.Follows s s') (h' : m.Follows s' s'') :
    m.Follows s s'' :=
  ⟨fun t ht => h'.tallied t (h.tallied t ht), fun n hn => h'.known n (h.known n hn)⟩

def Admits (t : Tally) (s : σ) (id limitCount : ℤ) (window : Window) (now : ℤ) : Prop :=
  m.Countable s id ∧ ∃ ws, Quota.windowStart now window = .ok ws ∧ t id ws < limitCount

def Exhausts (t : Tally) (s : σ) (id limitCount : ℤ) (window : Window) (now : ℤ) : Prop :=
  limitCount ≤ 0 ∨
    m.Countable s id ∧ ∃ ws, Quota.windowStart now window = .ok ws ∧ limitCount ≤ t id ws

variable {m} in
theorem not_exhausts {t : Tally} {s : σ} {id limitCount : ℤ} {window : Window} {now : ℤ}
    (h : m.Admits t s id limitCount window now) :
    ¬ m.Exhausts t s id limitCount window now := by
  obtain ⟨-, ws, hws, hlt⟩ := h
  rintro (hle | ⟨-, ws', hws', hge⟩)
  · omega
  · cases hws.symm.trans hws'
    omega

/-- Nothing can be counted. -/
def Fails (s : σ) (id limitCount : ℤ) (window : Window) (now : ℤ) : Prop :=
  0 < limitCount ∧ ¬ (m.Countable s id ∧ ∃ ws, Quota.windowStart now window = .ok ws)

variable {m} in
theorem not_fails_of_exhausts {t : Tally} {s : σ} {id limitCount : ℤ} {window : Window} {now : ℤ}
    (h : m.Exhausts t s id limitCount window now) : ¬ m.Fails s id limitCount window now := by
  rintro ⟨hpos, hnone⟩
  rcases h with hle | ⟨hcountable, ws, hws, -⟩
  · omega
  · exact hnone ⟨hcountable, ws, hws⟩

inductive Charge (t : Tally) (s : σ) (id limitCount : ℤ) (window : Window) (now : ℤ) :
    CplResult Bool × σ → Prop
  | admitted {ws : ℤ} {s' : σ} (hcountable : m.Countable s id)
      (hws : Quota.windowStart now window = .ok ws) (hlt : t id ws < limitCount)
      (htallied : m.Tallied (t.bump id ws) s') (hknown : ∀ n, m.Known s n → m.Known s' n) :
      Charge t s id limitCount window now (.ok true, s')
  | refused {s' : σ} (hexhausts : m.Exhausts t s id limitCount window now)
      (hfollows : m.Follows s s') : Charge t s id limitCount window now (.ok false, s')
  | failed {e : Failure} {s' : σ} (hfails : m.Fails s id limitCount window now)
      (hfollows : m.Follows s s') : Charge t s id limitCount window now (.error e, s')

end Meter

def PostgresControlPlane.Reading.Names (reading : Reading) (n : Text) : Prop :=
  match reading with
  | .accounts => False
  | .rules rows | .upstreams rows _ => ∃ row ∈ rows, row.cols.accountNumber.val = n
  | .done (.ok snapshot) => n ∈ snapshot
  | .done (.error _) => False

/-- A store that counts what it admits, and forgets no account that it has shown. -/
structure Store.Counts {σ ω : Type} (store : Store σ ω) (m : Meter σ) (durable : Bool) : Prop where
  createAccount : ∀ s n, m.Follows s (store.createAccount s n).2
  replaceRules : ∀ s n news, m.Follows s (store.replaceRules s n news).2
  replaceUpstreams : ∀ s n news, m.Follows s (store.replaceUpstreams s n news).2
  replaceCategories : ∀ s map world s', store.replaceCategories s map world = .ok s' →
    m.Follows s s'
  recordQuota : ∀ t s n id limitCount window now, m.Tallied t s → m.Known s n →
    m.Charge t s id limitCount window now (store.recordQuota s n id limitCount window now)
  snapshot : ∀ s snapshot n, store.snapshot s = .ok snapshot → n ∈ snapshot → m.Known s n
  read : ∀ s reading, (∀ n, reading.Names n → m.Known s n) →
    ∀ n, (store.read s reading).Names n → m.Known s n
  connect : ∀ t s, m.Tallied t s → m.Tallied (if durable then t else Tally.empty) (store.connect s)

/-! ### The counters in memory -/

namespace InMemControlPlane

def meter : Meter InMemControlPlane where
  Tallied t self := ∀ id ws, self.counter id ws = t id ws
  Known _ _ := True
  Countable _ _ := True

/-- Counters are touched by charges only. -/
theorem follows_quota {self self' : InMemControlPlane} (h : self'.quota = self.quota) :
    meter.Follows self self' := by
  refine ⟨fun t ht id ws => ?_, fun _ _ => trivial⟩
  rw [← ht id ws]
  unfold counter
  rw [h]

theorem tallied_insert {self : InMemControlPlane} {t t' : Tally} (h : meter.Tallied t self)
    {id ws count : ℤ} (hcount : count = t' id ws)
    (hother : ∀ id' ws', ¬ (id' = id ∧ ws' = ws) → t' id' ws' = t id' ws') :
    meter.Tallied t' { self with quota := self.quota.insert (id, ws) count } := by
  intro id' ws'
  rw [counter_insert]
  split_ifs with hkey
  · cases hkey
    exact hcount
  · rw [hother id' ws' fun hsame => hkey (Prod.ext hsame.1 hsame.2)]
    exact h id' ws'

theorem charge_run {t : Tally} {self : InMemControlPlane} (h : meter.Tallied t self)
    {id limitCount : ℤ} {window : Window} {now : ℤ} {r : CplResult Bool × InMemControlPlane}
    (hrun : QuotaRun self id limitCount window now r) :
    meter.Charge t self id limitCount window now r := by
  cases hrun with
  | zero hle => exact .refused (.inl hle) (.refl _ _)
  | failed hpos hws =>
    refine .failed ⟨hpos, ?_⟩ (.refl _ _)
    rintro ⟨-, ws, hws'⟩
    cases hws.symm.trans hws'
  | @refused ws hpos hws hcount =>
    refine .refused (.inr ⟨trivial, ws, hws, h id ws ▸ hcount⟩) ⟨fun t' ht' => ?_, fun _ _ => trivial⟩
    exact tallied_insert ht' (ht' id ws) fun _ _ _ => rfl
  | @counted ws hpos hws hcount =>
    refine .admitted trivial hws (h id ws ▸ hcount) ?_ fun _ _ => trivial
    refine tallied_insert h ?_ fun id' ws' hne => ?_
    · rw [h id ws, Tally.bump, if_pos ⟨rfl, rfl⟩, Nat.cast_add, Nat.cast_one]
    · rw [Tally.bump, if_neg hne, Nat.add_zero]

theorem store_counts : InMemControlPlane.store.Counts meter false where
  createAccount self n := by
    refine follows_quota ?_
    change (self.getOrCreate n).2.quota = _
    unfold getOrCreate
    cases self.accounts.lookup n <;> rfl
  replaceRules self n news := by
    refine follows_quota ?_
    change (self.replaceRules n news).2.quota = _
    rw [replaceRules_eq]
  replaceUpstreams self n news := by
    refine follows_quota ?_
    change (self.replaceUpstreams n news).2.quota = _
    rw [replaceUpstreams_eq]
  replaceCategories self map world self' h := by
    cases h
    exact follows_quota rfl
  recordQuota _ self n id limitCount window now h _ :=
    charge_run h (self.recordQuota_run n id limitCount window now)
  snapshot _ _ _ _ _ := trivial
  read _ _ _ _ _ := trivial
  connect _ _ _ id ws := rfl

end InMemControlPlane

/-! ### The counters in the tables -/

namespace PostgresControlPlane

/-- Deleted rules take their counters along, and ids to come are not counted yet. -/
def meter : Meter PostgresControlPlane where
  Tallied t db := (∀ id ws, Present (Database.rules db).rows id → db.counter id ws = t id ws) ∧
    ∀ id ws, (Database.rules db).serial < id → t id ws = 0
  Known db n := (db.accountNamed n).isSome
  Countable db id := Present (Database.rules db).rows id

theorem known_keeps {db db' : Database} (h : KeepsRules db db') (n : Text)
    (hknown : meter.Known db n) : meter.Known db' n := by
  obtain ⟨row, hrow⟩ := Option.isSome_iff_exists.mp hknown
  exact Option.isSome_iff_exists.mpr ⟨row, h.accountNamed hrow⟩

/-- A call that touches neither rules nor counters. -/
theorem follows_keeps {db db' : Database} (h : KeepsRules db db')
    (hquota : db'.quotaCounters.rows = db.quotaCounters.rows) : meter.Follows db db' where
  tallied t ht := by
    refine ⟨fun id ws hid => ?_, fun id ws hid => ht.2 id ws (h.serial.trans_lt hid)⟩
    rw [counter_congr hquota]
    exact ht.1 id ws (h.rules ▸ hid)
  known := known_keeps h

theorem quotaCounters_accountIdOrCreate (db : PostgresControlPlane) (n : Text) :
    (accountIdOrCreate db n).2.quotaCounters = db.quotaCounters := by
  by_cases hn : NulFree n
  · rcases accountIdOrCreate_cases db hn with ⟨row, -, hrun⟩ | ⟨-, db', hrun, -, -, -, hquota⟩
    · rw [hrun]
    · rw [hrun]
      exact hquota
  · unfold accountIdOrCreate bindText
    rw [dif_pos (not_not.mp hn)]

theorem follows_accountIdOrCreate (db : PostgresControlPlane) (n : Text) :
    meter.Follows db (accountIdOrCreate db n).2 :=
  follows_keeps (keepsRules_accountIdOrCreate db n)
    (congrArg Table.rows (quotaCounters_accountIdOrCreate db n))

theorem follows_rollback (db tx : Database) : meter.Follows db (db.rollback tx) :=
  follows_keeps (keepsRules_rollback db tx) rfl

/-- New rules have nothing counted, and those of other accounts keep their counters. -/
theorem follows_replaced {db tx : Database} {accountId : ℤ} {rows : List (Row RuleCols)}
    (hadded : RulesAdded (db.deleteRules accountId) tx rows)
    (hnew : ∀ r ∈ rows, db.rules.serial < r.id) : meter.Follows db tx where
  tallied t ht := by
    have hserial : tx.rules.serial = db.rules.serial + rows.length := hadded.serial
    refine ⟨fun id ws hid => ?_, fun id ws hid => ht.2 id ws (by omega)⟩
    rw [counter_congr (congrArg Table.rows hadded.quotaCounters)]
    by_cases hkept : Present (db.deleteRules accountId).rules.rows id
    · obtain ⟨r, hr, hrid⟩ := hkept
      rw [counter_deleteRules ⟨r, hr, hrid⟩]
      exact ht.1 id ws ⟨r, (List.mem_filter.mp hr).1, hrid⟩
    · obtain ⟨r, hr, rfl⟩ := hid
      rw [hadded.rules] at hr
      rcases List.mem_append.mp hr with hr | hr
      · exact absurd ⟨r, hr, rfl⟩ hkept
      · rw [counter_absent hkept, ht.2 r.id ws (hnew r hr)]
        rfl
  known n hn := by
    change (tx.accountNamed n).isSome
    rw [accountNamed_congr hadded.accounts]
    exact hn

theorem follows_replaceRules (db : PostgresControlPlane) (n : Text) (news : List NewRule) :
    meter.Follows db (replaceRules db n news).2 := by
  have haccount := follows_accountIdOrCreate db n
  have hput := replaceRules_put db n news
  generalize replaceRules db n news = r at hput ⊢
  cases hput with
  | refused => exact haccount
  | rolledBack tx => exact haccount.trans (follows_rollback _ tx)
  | stored hrow hadded hread =>
    exact haccount.trans (follows_replaced hadded fun r hr => ((allotted_rows hread).1 r hr).2)

theorem follows_replaceUpstreams (db : PostgresControlPlane) (n : Text) (news : List NewUpstream) :
    meter.Follows db (replaceUpstreams db n news).2 := by
  refine follows_keeps (keepsRules_replaceUpstreams db n news) ?_
  have haccount := congrArg Table.rows (quotaCounters_accountIdOrCreate db n)
  have hput := replaceUpstreams_put db n news
  generalize replaceUpstreams db n news = r at hput ⊢
  cases hput with
  | refused => exact haccount
  | rolledBack tx => exact haccount
  | stored hrow hadded hread => exact (congrArg Table.rows hadded.quotaCounters).trans haccount

/-- Nothing is written for a rule that is gone. -/
theorem upsertCounter_absent {db : Database} {accountId id : ℤ} (ws limitCount : ℤ)
    (haccount : Present db.accounts.rows accountId) (hrule : ¬ Present db.rules.rows id) :
    ∃ e, (db.upsertCounter accountId id ws limitCount).1 = .error e ∧
      (db.upsertCounter accountId id ws limitCount).2.quotaCounters.rows =
        db.quotaCounters.rows := by
  unfold upsertCounter
  dsimp only
  split
  · rename_i r hr
    have hid := counterRow_key hr
    exact absurd (hid.1 ▸ db.constraints.counters_rule_fkey r (List.mem_of_find?_eq_some hr)) hrule
  · rw [dif_pos haccount, dif_neg hrule]
    exact ⟨_, rfl, rfl⟩

theorem charge_run {t : Tally} {db : PostgresControlPlane} (h : meter.Tallied t db) {n : Text}
    (hn : meter.Known db n) (id limitCount : ℤ) (window : Window) (now : ℤ) :
    meter.Charge t db id limitCount window now (recordQuota db n id limitCount window now) := by
  obtain ⟨row, hrow⟩ := Option.isSome_iff_exists.mp hn
  obtain ⟨hmem, rfl⟩ := accountNamed_spec hrow
  have haccount : Present db.accounts.rows row.id := ⟨row, hmem, rfl⟩
  have hid := accountId_named db row.cols.accountNumber.property
  rw [hrow, Option.map_some] at hid
  unfold recordQuota
  split_ifs with hle
  · exact .refused (.inl hle) (.refl _ _)
  have hpos : 0 < limitCount := Int.not_le.mp hle
  rw [hid]
  dsimp only
  cases hws : Quota.windowStart now window with
  | error e =>
    refine .failed ⟨hpos, ?_⟩ (.refl _ _)
    rintro ⟨-, ws, hws'⟩
    cases hws.symm.trans hws'
  | ok ws =>
    dsimp only
    have hkeeps := keepsRules_upsertCounter db row.id id ws limitCount
    by_cases hrule : Present (Database.rules db).rows id
    · have hcount := h.1 id ws hrule
      obtain ⟨db', hrun, haccounts, hrules, -, hcounter⟩ :=
        upsertCounter_counts ws haccount hrule hpos
      rw [hrun] at hkeeps ⊢
      simp only [hcount] at hcounter ⊢
      split_ifs with hlt
      · refine .admitted hrule hws hlt ⟨fun id' ws' hid' => ?_, fun id' ws' hid' => ?_⟩
          (known_keeps hkeeps)
        · rw [hcounter, Tally.bump]
          split_ifs with hkey hkey' hkey'
          · rw [hkey.2.1, hkey.2.2, Nat.cast_add, Nat.cast_one]
          · exact absurd hkey.2 hkey'
          · exact absurd ⟨hlt, hkey'⟩ hkey
          · exact h.1 id' ws' (hrules ▸ hid')
        · rw [hrules] at hid'
          obtain ⟨r, hr, rfl⟩ := hrule
          have hissued := (Database.rules db).issued r hr
          rw [Tally.bump, if_neg fun hkey => by omega]
          exact h.2 id' ws' hid'
      · refine .refused (.inr ⟨hrule, ws, hws, Int.not_lt.mp hlt⟩)
          ⟨fun t' ht' => ⟨fun id' ws' hid' => ?_, fun id' ws' hid' => ?_⟩, known_keeps hkeeps⟩
        · rw [hcounter, if_neg fun hkey => hlt hkey.1]
          exact ht'.1 id' ws' (hrules ▸ hid')
        · exact ht'.2 id' ws' (hrules ▸ hid')
    · obtain ⟨e, herror, hquota⟩ := upsertCounter_absent ws limitCount haccount hrule
      generalize db.upsertCounter row.id id ws limitCount = counted at hkeeps herror hquota ⊢
      obtain ⟨result, db'⟩ := counted
      subst herror
      exact .failed ⟨hpos, fun hcountable => hrule hcountable.1⟩ (follows_keeps hkeeps hquota)

end PostgresControlPlane

/-! ### All tables -/

namespace PostgresControlPlane

theorem follows_seedPreset (db : Database) (preset : NewUpstream) :
    meter.Follows db (seedPreset db preset).2 := by
  have hinsert (cols : UpstreamCols) :
      (db.insertUpstream cols).2.quotaCounters = db.quotaCounters := by
    unfold insertUpstream
    dsimp only
    split
    · rfl
    · split
      · rfl
      · split <;> rfl
  unfold seedPreset
  cases upstreamCols none true preset with
  | error e => exact .refl _ _
  | ok cols =>
    dsimp only
    unfold insertUpstreamUnlessConflict
    split
    · exact follows_keeps (.of_rows rfl rfl le_rfl) rfl
    · exact follows_keeps (keepsRules_insertUpstream db cols) (congrArg Table.rows (hinsert cols))

theorem follows_seedPresets (presets : List NewUpstream) (db : Database) :
    meter.Follows db (seedPresets presets db).2 := by
  induction presets generalizing db with
  | nil => exact .refl _ _
  | cons preset presets ih =>
    have hseed := follows_seedPreset db preset
    unfold seedPresets
    generalize seedPreset db preset = seeded at hseed ⊢
    obtain ⟨result, db'⟩ := seeded
    cases result with
    | error e => exact hseed
    | ok u => exact hseed.trans (ih db')

theorem mem_takePolicies {rows : List (Row AccountCols)} {n : Text}
    (maps : Snapshot × HashMap ℤ (List Rule) × HashMap ℤ Upstream)
    (h : n ∈ (rows.foldl takePolicy maps).1) :
    n ∈ maps.1 ∨ ∃ row ∈ rows, row.cols.accountNumber.val = n := by
  induction rows generalizing maps with
  | nil => exact .inl h
  | cons row rows ih =>
    rcases ih (takePolicy maps row) h with hn | ⟨row', hrow', hnumber⟩
    · rcases Finmap.mem_insert.mp hn with rfl | hn
      · exact .inr ⟨row, List.mem_cons_self, rfl⟩
      · exact .inl hn
    · exact .inr ⟨row', List.mem_cons_of_mem _ hrow', hnumber⟩

theorem mem_collect {rows : List (Row AccountCols)} {rules : List (Row RuleCols)}
    {ups : List (Row UpstreamCols)} {snapshot : Snapshot}
    (h : collect rows rules ups = .ok snapshot) {n : Text} (hn : n ∈ snapshot) :
    ∃ row ∈ rows, row.cols.accountNumber.val = n := by
  unfold collect at h
  generalize rules.foldlM pushRule ∅ = byRules at h
  generalize ups.foldlM insertActive ∅ = byUpstream at h
  cases byRules with
  | error e => cases h
  | ok rulesByAccount =>
    cases byUpstream with
    | error e => cases h
    | ok upstreamByAccount =>
      cases h
      exact (mem_takePolicies _ hn).resolve_left Finmap.notMem_empty

theorem known_of_row {db : PostgresControlPlane} {n : Text}
    (h : ∃ row ∈ db.accounts.rows, row.cols.accountNumber.val = n) : meter.Known db n := by
  obtain ⟨row, hrow, rfl⟩ := h
  exact Option.isSome_iff_exists.mpr ⟨row, accountNamed_of_mem hrow⟩

theorem mem_snapshot {db : PostgresControlPlane} {snapshot : Snapshot} {n : Text}
    (h : PostgresControlPlane.snapshot db = .ok snapshot) (hn : n ∈ snapshot) :
    meter.Known db n :=
  known_of_row (mem_collect h hn)

theorem names_read {db : PostgresControlPlane} {reading : Reading}
    (h : ∀ n, reading.Names n → meter.Known db n) (n : Text) (hn : (read db reading).Names n) :
    meter.Known db n := by
  cases reading with
  | accounts => exact known_of_row hn
  | rules rows => exact h n hn
  | upstreams rows rules =>
    change (Reading.done (collect _ _ _)).Names n at hn
    generalize hcollect : collect _ _ _ = collected at hn
    cases collected with
    | error e => cases hn
    | ok snapshot => exact h n (mem_collect hcollect hn)
  | done result => exact h n hn

end PostgresControlPlane

def Meter.first {σ : Type} (m : Meter σ) (τ : Type) : Meter (σ × τ) where
  Tallied t s := m.Tallied t s.1
  Known s := m.Known s.1
  Countable s := m.Countable s.1

theorem Meter.Follows.first {σ τ : Type} {m : Meter σ} {s s' : σ} (h : m.Follows s s') (x y : τ) :
    (m.first τ).Follows (s, x) (s', y) := ⟨h.tallied, h.known⟩

theorem Meter.Charge.first {σ τ : Type} {m : Meter σ} {t : Tally} {s : σ} {id limitCount : ℤ}
    {window : Window} {now : ℤ} {r : CplResult Bool × σ}
    (h : m.Charge t s id limitCount window now r) (x : τ) :
    (m.first τ).Charge t (s, x) id limitCount window now (r.1, r.2, x) := by
  cases h with
  | admitted hcountable hws hlt htallied hknown => exact .admitted hcountable hws hlt htallied hknown
  | refused hexhausts hfollows => exact .refused hexhausts (hfollows.first x x)
  | failed hfails hfollows => exact .failed hfails (hfollows.first x x)

theorem PostgresControlPlane.store_counts :
    PostgresControlPlane.store.Counts (meter.first BlocklistTables) true where
  createAccount s n := (follows_accountIdOrCreate s.1 n).first s.2 s.2
  replaceRules s n news := (follows_replaceRules s.1 n news).first s.2 s.2
  replaceUpstreams s n news := (follows_replaceUpstreams s.1 n news).first s.2 s.2
  replaceCategories s map world s' h := by
    obtain ⟨db, tables⟩ := s'
    have hsame : db = s.1 := replaceCategories_fst h
    subst hsame
    exact (Meter.Follows.refl _ s.1).first _ _
  recordQuota _ s _ id limitCount window now h hn :=
    (charge_run h hn id limitCount window now).first s.2
  snapshot _ _ _ h hn := mem_snapshot h hn
  read _ _ h := names_read h
  connect t s h := (follows_seedPresets presetUpstreamsDefault s.1).tallied t h

/-! ### What tally and program have in common -/

section

variable {σ ω : Type} [Text.UnicodeTables]

structure Counted (m : Meter σ) (t : Tally) (s : Runtime σ) : Prop where
  tallied : m.Tallied t s.cp
  cached : ∀ n, n ∈ s.cache → m.Known s.cp n
  held : ∀ reading, s.poll = .refreshing reading → ∀ n, reading.Names n → m.Known s.cp n
  charged : ∀ task flight, s.flights.lookup task = some flight →
    ∀ id limitCount window, flight.awaited = .recordQuota id limitCount window →
      m.Known s.cp flight.query.account

variable {store : Store σ ω} {setup : Setup} {m : Meter σ} {durable : Bool} {t t' : Tally}
  {s : Runtime σ}

omit [Text.UnicodeTables] in
theorem Counted.writes (h : Counted m t s) {cp : σ} (htallied : m.Tallied t' cp)
    (hknown : ∀ n, m.Known s.cp n → m.Known cp n) : Counted m t' { s with cp } where
  tallied := htallied
  cached n hn := hknown n (h.cached n hn)
  held reading hpoll n hn := hknown n (h.held reading hpoll n hn)
  charged task flight hflight id limitCount window hawaited :=
    hknown _ (h.charged task flight hflight id limitCount window hawaited)

omit [Text.UnicodeTables] in
theorem Counted.follows (h : Counted m t s) {cp : σ} (hfollows : m.Follows s.cp cp) :
    Counted m t { s with cp } :=
  h.writes (hfollows.tallied t h.tallied) hfollows.known

omit [Text.UnicodeTables] in
theorem Counted.finish (h : Counted m t s) (task : ℕ) (query : Query) (outcome : Outcome)
    (result : CplResult Bytes) : Counted m t (s.finish task query outcome result).2 where
  tallied := h.tallied
  cached := h.cached
  held := h.held
  charged task' flight hflight := by
    change (s.flights.erase task).lookup task' = some flight at hflight
    rw [HashMap.lookup_erase] at hflight
    split_ifs at hflight
    exact h.charged task' flight hflight

omit [Text.UnicodeTables] in
theorem Counted.goesOn (h : Counted m t s) {task : ℕ} {flight : Flight}
    (hknown : ∀ id limitCount window, flight.awaited = .recordQuota id limitCount window →
      m.Known s.cp flight.query.account) :
    Counted m t { s with flights := s.flights.insert task flight } where
  tallied := h.tallied
  cached := h.cached
  held := h.held
  charged task' flight' hflight := by
    rw [HashMap.lookup_insert] at hflight
    split_ifs at hflight
    · cases hflight
      exact hknown
    · exact h.charged task' flight' hflight

omit [Text.UnicodeTables] in
theorem Counted.dispatch (h : Counted m t s) (task : ℕ) (query : Query)
    (cached : Option AccountPolicy) (outcome : Outcome) :
    Counted m t (s.dispatch task query cached outcome).2 := by
  let flight : Flight := ⟨query, cached,
    .sendRecv outcome (Pipeline.transportFor (s.pool query.protocol) cached).1.transport⟩
  have hgoesOn : Counted m t { s with flights := s.flights.insert task flight } :=
    h.goesOn fun id limitCount window hawaited => by cases hawaited
  exact ⟨hgoesOn.tallied, hgoesOn.cached, hgoesOn.held, hgoesOn.charged⟩

omit [Text.UnicodeTables] in
/-- Accounts in a snapshot that was taken are known. -/
theorem Store.Counts.known (hstore : store.Counts m durable) {cp : σ} {failure : Option Failure}
    {snapshot : Snapshot} (h : CplResult.unless (store.snapshot cp) failure = .ok snapshot)
    (n : Text) (hn : n ∈ snapshot) : m.Known cp n := by
  cases failure with
  | some e => cases h
  | none => exact hstore.snapshot cp snapshot n h hn

omit [Text.UnicodeTables] in
theorem Counted.fetched (h : Counted m t s) (hstore : store.Counts m durable)
    (failure : Option Failure) {reading : Reading} (hfetching : s.Fetching reading) :
    Counted m t (s.advance store reading failure).2 := by
  refine ⟨h.tallied, h.cached, fun reading' hpoll => ?_, h.charged⟩
  cases hpoll
  cases failure with
  | some e => exact fun n hn => absurd hn id
  | none =>
    refine hstore.read s.cp reading fun n hn => ?_
    cases hfetching with
    | begins hpoll => cases hn
    | goesOn hpoll hmore => exact h.held reading hpoll n hn

omit [Text.UnicodeTables] in
theorem Store.Counts.ingest (hstore : store.Counts m durable) (cp : σ) (feeds : List Feed)
    (net : Blocklist.Network) (world : ω) (index : CategoryIndex) :
    m.Follows cp (Blocklist.ingest store.toCategoryStore feeds net world cp index).2.1 := by
  unfold Blocklist.ingest
  cases net.client with
  | error e => exact .refl _ _
  | ok u =>
    dsimp only
    split_ifs
    · exact .refl _ _
    · cases hreplaced : store.replaceCategories cp (Blocklist.merge feeds net) world with
      | error e => exact .refl _ _
      | ok cp' => exact hstore.replaceCategories cp _ world cp' hreplaced

omit [Text.UnicodeTables] in
theorem Store.Counts.handle (hstore : store.Counts m durable) (cp : σ) (req : Http.Request) :
    m.Follows cp (Http.handle store.toManagementStore cp req).2 := by
  have hwrites := Http.handle_writes store.toManagementStore cp req
  generalize (Http.handle store.toManagementStore cp req).2 = cp' at hwrites ⊢
  cases hwrites with
  | none => exact .refl _ _
  | createAccount n => exact hstore.createAccount cp n
  | replaceRules n news => exact hstore.replaceRules cp n news
  | replaceUpstreams n news => exact hstore.replaceUpstreams cp n news

omit [Text.UnicodeTables] in
theorem start_counted (setup : Setup) (hstore : store.Counts m durable) {cp : σ}
    (htallied : m.Tallied t cp) (boot : Boot ω) :
    Counted m t (Runtime.start store setup cp boot).2 := by
  have hcache : ∀ n, n ∈ (PolicyCache.refresh ∅
      (CplResult.unless (store.snapshot cp) boot.snapshot)).2 → m.Known cp n := by
    intro n hn
    cases hsnapshot : CplResult.unless (store.snapshot cp) boot.snapshot with
    | error e =>
      rw [hsnapshot] at hn
      exact absurd hn (Finmap.notMem_empty)
    | ok snapshot =>
      rw [hsnapshot] at hn
      exact hstore.known hsnapshot n hn
  have hcounted : ∀ {s : Runtime σ}, m.Follows cp s.cp → s.cache = (PolicyCache.refresh ∅
      (CplResult.unless (store.snapshot cp) boot.snapshot)).2 → s.flights = ∅ →
      s.poll = .sleeping → Counted m t s := by
    intro s hfollows hcache' hflights hpoll
    refine ⟨hfollows.tallied t htallied, fun n hn => hfollows.known n (hcache n (hcache' ▸ hn)),
      ?_, ?_⟩
    · simp [hpoll]
    · simp [hflights]
  unfold Runtime.start
  dsimp only
  split_ifs
  · exact hcounted (hstore.ingest cp _ _ _ _) rfl rfl rfl
  · exact hcounted (.refl _ _) rfl rfl rfl

/-! ### Runs -/

omit [Text.UnicodeTables] in
theorem Tally.after_of_arrives {i : Input ω} {task : ℕ} {query : Query}
    (harrives : Arrives setup s i task query) (reaction : Reaction) :
    t.after durable s i reaction = t := by
  cases harrives <;> rfl

/-- One step keeps what tally and program have in common. -/
theorem step_counted (hstore : store.Counts m durable) (h : Counted m t s) (i : Input ω) :
    Counted m (t.after durable s i (s.step store setup i).1) (s.step store setup i).2 := by
  have hrun : StepRun store setup s i (s.step store setup i) := step_run i
  generalize s.step store setup i = r at hrun ⊢
  cases hrun with
  | api req => exact h.follows (hstore.handle s.cp req)
  | obtained n => exact h.follows (hstore.createAccount s.cp n)
  | idle hrestart =>
    have hafter : t.after durable s i .idle = t := by
      cases i with
      | restart boot => exact absurd rfl (hrestart boot)
      | _ => rfl
    exact hafter.symm ▸ h
  | refused => exact h
  | unparsed harrives | denied harrives =>
    rw [Tally.after_of_arrives harrives]
    exact h.finish _ _ _ _
  | asked harrives hname hrule haction =>
    rw [Tally.after_of_arrives harrives]
    refine h.goesOn fun id limitCount window _ => h.cached _ ?_
    rw [← Finmap.lookup_isSome]
    exact isSome_of_ruleFor hrule
  | allowed harrives =>
    rw [Tally.after_of_arrives harrives]
    exact h.dispatch _ _ _ _
  | unreachable e hflight => exact h.finish _ _ _ _
  | @admitted task query cached id limitCount now window cp hflight hquota =>
    have hcharge := hstore.recordQuota t s.cp query.account id limitCount window now h.tallied
      (h.charged task _ hflight id limitCount window rfl)
    rw [hquota] at hcharge
    cases hcharge with
    | @admitted ws _ hcountable hws hlt htallied hknown =>
      have hafter : t.after durable s (.recordQuota task none now : Input ω)
          (({ s with cp } : Runtime σ).dispatch task query cached .LimitOk).1 = t.bump id ws := by
        change Tally.after durable t s (.recordQuota task none now : Input ω) (.sends _ _ _) = _
        unfold Tally.after
        simp only [hflight, hws]
      rw [hafter]
      exact (h.writes htallied hknown).dispatch _ _ _ _
  | @exceeded task query cached id limitCount now window cp hflight hquota =>
    have hcharge := hstore.recordQuota t s.cp query.account id limitCount window now h.tallied
      (h.charged task _ hflight id limitCount window rfl)
    rw [hquota] at hcharge
    cases hcharge with
    | refused hexhausts hfollows => exact (h.follows hfollows).finish _ _ _ _
  | @failed task query cached id limitCount now window cp e hflight hquota =>
    have hcharge := hstore.recordQuota t s.cp query.account id limitCount window now h.tallied
      (h.charged task _ hflight id limitCount window rfl)
    rw [hquota] at hcharge
    cases hcharge with
    | failed hfails hfollows => exact (h.follows hfollows).finish _ _ _ _
  | received response hflight => exact h.finish _ _ _ _
  | fetched failure hfetching => exact h.fetched hstore failure hfetching
  | @installed snapshot now hpoll =>
    unfold Runtime.install
    simp only [hpoll]
    refine ⟨h.tallied, fun n hn => ?_, fun reading hreading => ?_, h.charged⟩
    · cases snapshot with
      | error e => exact h.cached n hn
      | ok snapshot => exact h.held _ hpoll n hn
    · dsimp only at hreading
      split_ifs at hreading
  | ingested net world now hpoll =>
    have hfollows := hstore.ingest s.cp setup.blocklist.ingested net world s.categories
    unfold Runtime.ingest
    simp only [hpoll]
    have hcounted := h.follows hfollows
    refine ⟨hcounted.tallied, hcounted.cached, ?_, hcounted.charged⟩
    intro reading hreading
    cases hreading
  | restarted boot =>
    exact start_counted setup hstore (hstore.connect t s.cp h.tallied) boot

end

section

variable {σ ω : Type} [Text.UnicodeTables] (store : Store σ ω) (setup : Setup)

def Runtime.tallied (durable : Bool) : Machine (Runtime σ × Tally) (Input ω) Reaction :=
  (Runtime.machine store setup).observe fun t s i reaction => t.after durable s i reaction

/-- A query that waits for its quota after a run goes out, is told that the limit is exceeded, or
fails, exactly as the tally and the stored rules say. -/
def Limited (m : Meter σ) (durable : Bool) (cp : σ) (boot : Boot ω) (is : List (Input ω))
    (task : ℕ) (now : ℤ) : Prop :=
  let (s, t) := (Runtime.tallied store setup durable).exec
    ((Runtime.start store setup (store.connect cp) boot).2, Tally.empty) is
  let (reaction, _) := s.step store setup (.recordQuota task none now)
  ∀ query cached id limitCount window,
    s.flights.lookup task = some ⟨query, cached, .recordQuota id limitCount window⟩ →
    ((∃ transport, reaction = .sends task query transport) ↔
        m.Admits t s.cp id limitCount window now) ∧
      ((∃ answer, reaction = .answered task query .LimitExceeded answer) ↔
        m.Exhausts t s.cp id limitCount window now) ∧
      ((∃ answer, reaction = .answered task query .Error answer) ↔
        m.Fails s.cp id limitCount window now)

variable {store setup}
variable {m : Meter σ} {durable : Bool}

theorem run_counted (hstore : store.Counts m durable) {cp : σ} (hnew : m.Tallied Tally.empty cp)
    (boot : Boot ω) (is : List (Input ω)) :
    Counted m
      ((Runtime.tallied store setup durable).exec
        ((Runtime.start store setup (store.connect cp) boot).2, Tally.empty) is).2
      ((Runtime.tallied store setup durable).exec
        ((Runtime.start store setup (store.connect cp) boot).2, Tally.empty) is).1 := by
  refine Machine.invariant _ (fun x : Runtime σ × Tally => Counted m x.2 x.1) (fun _ => True)
    (fun _ i _ h => step_counted hstore h i) is _ (fun _ _ => trivial) ?_
  refine start_counted setup hstore ?_ boot
  have hconnect := hstore.connect Tally.empty cp hnew
  rwa [ite_self] at hconnect

def Tells (setup : Setup) (task : ℕ) (query : Query) : CplResult Bool → Reaction → Prop
  | .ok true, reaction => ∃ transport, reaction = .sends task query transport
  | .ok false, reaction =>
    reaction = .answered task query .LimitExceeded (Blocking.synthesize query.raw setup.policy)
  | .error e, reaction => reaction = .answered task query .Error (.error e)

variable (store setup) in
theorem charge_tells {s : Runtime σ} {task : ℕ} {query : Query} {cached : Option AccountPolicy}
    {id limitCount : ℤ} {window : Window}
    (hflight : s.flights.lookup task = some ⟨query, cached, .recordQuota id limitCount window⟩)
    (now : ℤ) : Tells setup task query
      (store.recordQuota s.cp query.account id limitCount window now).1
      (s.step store setup (.recordQuota task none now)).1 := by
  change Tells setup task query _ (s.charge setup store.toControlPlane task none now).1
  unfold Runtime.charge
  split
  · next hfound =>
    cases hflight.symm.trans hfound
    cases hquota : store.recordQuota s.cp query.account id limitCount window now with
    | mk admitted cp =>
    dsimp only
    rcases admitted with e | _ | _
    · rfl
    · rfl
    · exact ⟨_, rfl⟩
  · next hnone => exact absurd hflight (hnone _ _ _ _ _)

theorem charge_limited (hstore : store.Counts m durable) {t : Tally} {s : Runtime σ}
    (h : Counted m t s) {task : ℕ} {now : ℤ} {query : Query} {cached : Option AccountPolicy}
    {id limitCount : ℤ} {window : Window}
    (hflight : s.flights.lookup task = some ⟨query, cached, .recordQuota id limitCount window⟩) :
    ((∃ transport, (s.step store setup (.recordQuota task none now)).1 =
          .sends task query transport) ↔ m.Admits t s.cp id limitCount window now) ∧
      ((∃ answer, (s.step store setup (.recordQuota task none now)).1 =
          .answered task query .LimitExceeded answer) ↔
        m.Exhausts t s.cp id limitCount window now) ∧
      ((∃ answer, (s.step store setup (.recordQuota task none now)).1 =
          .answered task query .Error answer) ↔ m.Fails s.cp id limitCount window now) := by
  have hcharge := hstore.recordQuota t s.cp query.account id limitCount window now h.tallied
    (h.charged task _ hflight id limitCount window rfl)
  have hadmits := @Meter.not_exhausts _ m t s.cp id limitCount window now
  have hcharged := charge_tells store setup hflight now
  generalize store.recordQuota s.cp query.account id limitCount window now = r at hcharge hcharged
  cases hcharge with
  | admitted hcountable hws hlt =>
    obtain ⟨transport, hsends⟩ := hcharged
    rw [hsends]
    have hroom : m.Admits t s.cp id limitCount window now := ⟨hcountable, _, hws, hlt⟩
    exact ⟨iff_of_true ⟨_, rfl⟩ hroom, iff_of_false (by simp) (hadmits hroom),
      iff_of_false (by simp) fun hfails => hfails.2 ⟨hcountable, _, hws⟩⟩
  | refused hexhausts =>
    rw [hcharged]
    exact ⟨iff_of_false (by simp) fun hroom => hadmits hroom hexhausts,
      iff_of_true ⟨_, rfl⟩ hexhausts,
      iff_of_false (by simp) (Meter.not_fails_of_exhausts hexhausts)⟩
  | failed hfails =>
    rw [hcharged]
    refine ⟨iff_of_false (by simp) ?_, iff_of_false (by simp) fun hexhausts =>
      Meter.not_fails_of_exhausts hexhausts hfails, iff_of_true ⟨_, rfl⟩ hfails⟩
    rintro ⟨hcountable, ws, hws, -⟩
    exact hfails.2 ⟨hcountable, ws, hws⟩

variable (store setup) in
theorem limited (hstore : store.Counts m durable) {cp : σ} (hnew : m.Tallied Tally.empty cp)
    (boot : Boot ω) (is : List (Input ω)) (task : ℕ) (now : ℤ) :
    Limited store setup m durable cp boot is task now :=
  fun _ _ _ _ _ hflight => charge_limited hstore (run_counted hstore hnew boot is) hflight

end

/-- Whatever runs in between, edits, refreshes, failures and restarts included, a query that waits
for its quota is sent exactly if fewer queries than the limit were sent under its rule in the window
of the clock. In memory this is so whether or not the rule is still stored. The tables count for
stored rules only: once its rule is gone, a query with a positive limit fails. Their tally survives
a restart, that of the memory does not. -/
theorem limits_exact [Text.UnicodeTables] (setup : Setup) (task : ℕ) (now : ℤ) :
    (∀ (boot : Boot ℤ) (is : List (Input ℤ)),
      Limited InMemControlPlane.store setup InMemControlPlane.meter false
        InMemControlPlane.default boot is task now) ∧
    ∀ (tables : BlocklistTables) (boot : Boot (ℤ × BlocklistTables.IterationOrder))
      (is : List (Input _)),
      Limited PostgresControlPlane.store setup (PostgresControlPlane.meter.first BlocklistTables)
        true (Database.empty, tables) boot is task now := by
  refine ⟨fun boot is => ?_, fun tables boot is => ?_⟩
  · exact limited _ setup InMemControlPlane.store_counts (fun _ _ => rfl) boot is task now
  · refine limited _ setup PostgresControlPlane.store_counts ⟨fun id ws hid => ?_, fun _ _ _ => rfl⟩
      boot is task now
    rfl

section

attribute [local instance] Text.asciiTables

/-- One query used the hour up, and another one waits for its quota. -/
def spentHour : List (Input ℤ) :=
  [.api (.replaceRules ['1'] (.ok [oneAnHour])), .fetch none, .install 0,
    .dot 1 none askB, .recordQuota 1 none 3600, .dot 2 none askB]

theorem limits_exact_spent_hour : ∃ answer,
    let (s, _) := (Runtime.tallied InMemControlPlane.store plainSetup false).exec
      ((Runtime.start InMemControlPlane.store plainSetup
        (InMemControlPlane.store.connect InMemControlPlane.default) (calmBoot 0)).2, Tally.empty)
      spentHour
    (s.step InMemControlPlane.store plainSetup (.recordQuota 2 none 7199)).1 =
      .answered 2 ⟨.dot, ['1'], askB⟩ .LimitExceeded answer := by
  have hlimited := (limits_exact plainSetup 2 7199).1 (calmBoot 0) spentHour
  refine (hlimited ⟨.dot, ['1'], askB⟩
    (some ⟨[⟨1, 1, 0, .Limit, .Domain, ['b'], some 1, some .Hour, true⟩], none⟩) 1 1 .Hour ?_).2.1.mpr
    (.inr ⟨trivial, 3600, ?_, ?_⟩) <;> decide +kernel

end

end Brdns
