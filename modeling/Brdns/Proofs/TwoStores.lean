import Brdns.Proofs.Counters
import Brdns.Proofs.Interleaving
import Brdns.Proofs.Isolation
import Brdns.Proofs.Snapshots
import Brdns.Proofs.Statements
import Brdns.Spec.ControlPlane

/-! The two stores return the same. A simulation relates the records of the memory store to the
rows of the tables under one renaming of ids; counters correspond as long as their rule is stored,
since the tables delete the others and the memory keeps them. -/

namespace Brdns

open Lib Lib.Fold Database InMemControlPlane

/-! ### Related states -/

structure AccountStored (ρ : Renamings) (db : Database) (rec : AccountRecord)
    (row : Row AccountCols) : Prop where
  account : rec.account.Same ρ ⟨row.id, row.cols.accountNumber.val⟩
  rules : ∃ rules, List.Forall₂ (fun r rule => PostgresControlPlane.ruleFromRow r = .ok rule)
      (db.rules.select fun r => r.accountId = row.id) rules ∧
    List.Forall₂ (Rule.Same ρ) rec.rules rules
  placed : (db.rules.select fun r => r.accountId = row.id).Pairwise
    fun r r' => r.cols.position ≤ r'.cols.position
  upstreams : ∃ ups, List.Forall₂ (fun r up => PostgresControlPlane.upstreamFromRow r = .ok up)
      (PostgresControlPlane.upstreamRows db row.id) ups ∧
    List.Forall₂ (Upstream.Same ρ) rec.upstreams ups

/-- A state of the memory store and a state of the tables that return the same. -/
structure Mirrors (ρ : Renamings) (s : InMemControlPlane) (db : Database) : Prop where
  accounts : ∀ n, Option.Rel (AccountStored ρ db) (s.accounts.lookup n) (db.accountNamed n)
  ruleIds : ρ.rule.Below s.nextRuleId db.rules.serial
  upstreamIds : ρ.upstream.Below s.nextUpstreamId db.upstreams.serial
  accountIds : ρ.account.Below s.nextAccountId db.accounts.serial
  counters : ∀ i j ws, ρ.rule.Rel i j → Present db.rules.rows j → s.counter i ws = db.counter j ws
  unused : ∀ id ws, s.nextRuleId < id → s.counter id ws = 0

section

variable {ρ σ : Renamings} {s : InMemControlPlane} {db db' : Database}

/-- Rows of other accounts do not matter. -/
theorem AccountStored.frame {rec : AccountRecord} {row : Row AccountCols}
    (h : AccountStored ρ db rec row) (hle : ρ ≤ σ)
    (hrules : (db'.rules.select fun r => r.accountId = row.id) =
      db.rules.select fun r => r.accountId = row.id)
    (hups : PostgresControlPlane.upstreamRows db' row.id =
      PostgresControlPlane.upstreamRows db row.id) : AccountStored σ db' rec row where
  account := h.account.mono hle
  rules := by
    rw [hrules]
    exact h.rules.imp fun _ hrules => ⟨hrules.1, hrules.2.imp fun _ _ => Rule.Same.mono hle⟩
  placed := hrules.symm ▸ h.placed
  upstreams := by
    rw [hups]
    exact h.upstreams.imp fun _ hups => ⟨hups.1, hups.2.imp fun _ _ => Upstream.Same.mono hle⟩

/-- Both stores have the account, or neither has. -/
theorem Mirrors.account_cases (h : Mirrors ρ s db) (n : Text) :
    (s.accounts.lookup n = none ∧ db.accountNamed n = none) ∨
      ∃ rec row, s.accounts.lookup n = some rec ∧ db.accountNamed n = some row ∧
        AccountStored ρ db rec row := optionRel_cases (h.accounts n)

/-- Values drawn from the sequences for nothing are not seen. -/
theorem Mirrors.skip (h : Mirrors ρ s db) (gap : Gap) : Mirrors ρ s (db.skip gap) where
  accounts n := optionRel_imp (fun _ _ hstored => hstored.frame le_rfl rfl rfl) (h.accounts n)
  ruleIds := h.ruleIds.mono le_rfl (Int.le_add_of_nonneg_right (Int.natCast_nonneg _))
  upstreamIds := h.upstreamIds.mono le_rfl (Int.le_add_of_nonneg_right (Int.natCast_nonneg _))
  accountIds := h.accountIds.mono le_rfl (Int.le_add_of_nonneg_right (Int.natCast_nonneg _))
  counters := h.counters
  unused := h.unused

/-! ### Accounts -/

/-- An account that is not there has no rows. -/
theorem no_rows {id : ℤ} (h : ¬ Present db.accounts.rows id) :
    (db.rules.select fun r => r.accountId = id) = [] ∧
      PostgresControlPlane.upstreamRows db id = [] := by
  constructor
  · refine List.filter_eq_nil_iff.mpr fun r hr hid => h ?_
    have hid : r.cols.accountId = id := by simpa using hid
    exact hid ▸ db.constraints.rules_fkey r hr
  · refine List.filter_eq_nil_iff.mpr fun r hr hid => h ?_
    exact db.constraints.upstreams_fkey r hr id (by simpa using hid)

theorem upstreamRows_congr (h : db'.upstreams = db.upstreams) (id : ℤ) :
    PostgresControlPlane.upstreamRows db' id = PostgresControlPlane.upstreamRows db id := by
  unfold PostgresControlPlane.upstreamRows
  rw [h]

/-- A row for an account that neither store has. -/
theorem Mirrors.accountInserted (h : Mirrors ρ s db) {n : Text} {hn : NulFree n}
    (hnone : db.accountNamed n = none) (hlookup : s.accounts.lookup n = none)
    (haccounts : db'.accounts = db.accounts.insert ⟨⟨n, hn⟩⟩) (hrules : db'.rules = db.rules)
    (hups : db'.upstreams = db.upstreams) (hquota : db'.quotaCounters = db.quotaCounters) :
    Mirrors { ρ with account := ρ.account.extend _ _ 1 h.accountIds } (s.getOrCreate n).2 db' := by
  have hfresh : ¬ Present db.accounts.rows (db.accounts.serial + 1) := by
    rintro ⟨r, hr, hid⟩
    have := db.accounts.issued r hr
    omega
  obtain ⟨hnoRules, hnoUps⟩ := no_rows hfresh
  have hselect : ∀ id, (db'.rules.select fun r => r.accountId = id) =
      db.rules.select fun r => r.accountId = id := fun id => by rw [hrules]
  have hle : ρ ≤ { ρ with account := ρ.account.extend _ _ 1 h.accountIds } :=
    ⟨le_rfl, le_rfl, Renaming.le_extend h.accountIds 1⟩
  unfold getOrCreate
  rw [hlookup]
  refine ⟨fun n' => ?_, ?_, ?_, ?_, ?_, h.unused⟩
  · rw [accountNamed_insert haccounts, HashMap.lookup_insert]
    by_cases heq : n' = n
    · subst heq
      rw [hnone, if_pos rfl, if_pos rfl]
      refine .some ⟨⟨Renaming.extend_next h.accountIds 1 (by omega) (by omega), rfl⟩, ?_, ?_, ?_⟩
      · rw [hselect, hnoRules]
        exact ⟨[], .nil, .nil⟩
      · rw [hselect, hnoRules]
        exact .nil
      · rw [upstreamRows_congr hups, hnoUps]
        exact ⟨[], .nil, .nil⟩
    · rw [if_neg heq, if_neg (Ne.symm heq), Option.or_none]
      exact optionRel_imp (fun _ row' hstored =>
        hstored.frame hle (hselect row'.id) (upstreamRows_congr hups row'.id)) (h.accounts n')
  · rw [hrules]
    exact h.ruleIds
  · rw [hups]
    exact h.upstreamIds
  · rw [haccounts]
    exact Renaming.extend_below h.accountIds 1
  · intro i j ws hij hpresent
    rw [counter_congr (congrArg Table.rows hquota)]
    exact h.counters i j ws hij (hrules ▸ hpresent)

/-- Both stores make sure of the account. -/
theorem Mirrors.obtain (h : Mirrors ρ s db) {n : Text} (hn : NulFree n) :
    ∃ (account : Renaming ℤ ℤ) (row : Row AccountCols) (db' : Database), ρ.account ≤ account ∧
      PostgresControlPlane.accountIdOrCreate db n = (.ok row.id, db') ∧
      db'.accountNamed n = some row ∧ row.cols.accountNumber.val = n ∧
      Mirrors { ρ with account } (s.getOrCreate n).2 db' := by
  have hnamed := db.accountRow_eq ⟨n, hn⟩
  rcases PostgresControlPlane.accountIdOrCreate_cases db hn with
    ⟨row, hrow, hrun⟩ | ⟨hnone, db', hrun, haccounts, hrules, hups, hquota⟩
  · rw [hnamed] at hrow
    refine ⟨ρ.account, row, db, le_rfl, hrun, hrow, (accountNamed_spec hrow).2, ?_⟩
    rcases h.account_cases n with ⟨-, hnone⟩ | ⟨rec, -, hrec, -⟩
    · rw [hrow] at hnone
      cases hnone
    · unfold getOrCreate
      rw [hrec]
      exact h
  · rw [hnamed] at hnone
    have hlookup : s.accounts.lookup n = none := by
      rcases h.account_cases n with ⟨hlookup, -⟩ | ⟨rec, row, -, hrow, -⟩
      · exact hlookup
      · rw [hrow] at hnone
        cases hnone
    refine ⟨_, ⟨db.accounts.serial + 1, ⟨⟨n, hn⟩⟩⟩, db', Renaming.le_extend h.accountIds 1, hrun, ?_,
      rfl, h.accountInserted hnone hlookup haccounts hrules hups hquota⟩
    rw [accountNamed_insert haccounts, hnone, if_pos rfl]
    rfl

end

/-! ### Rules -/

theorem asI32_of_lt {n : ℕ} (h : n < 2 ^ 31) : asI32 n = n := by
  unfold asI32
  apply Int.bmod_eq_of_le_mul_two <;> omega

/-- The positions of a list that is not too long come in order. -/
theorem allotRules_sorted (accountId nextId : ℤ) (position : ℕ) {news : List NewRule}
    (h : position + news.length ≤ 2 ^ 31) :
    (∀ rule ∈ (allotRules accountId nextId position news).1, (position : ℤ) ≤ rule.position) ∧
      (allotRules accountId nextId position news).1.Pairwise fun rule rule' =>
        rule.position ≤ rule'.position := by
  induction news generalizing nextId position with
  | nil => simp [allotRules]
  | cons new news ih =>
    rw [List.length_cons] at h
    have hfirst : asI32 position = position := asI32_of_lt (by omega)
    obtain ⟨hle, hsorted⟩ := ih (nextId + 1) (position + 1) (by omega)
    simp only [allotRules, List.forall_mem_cons, List.pairwise_cons, hfirst]
    refine ⟨⟨le_rfl, fun rule hrule => ?_⟩, fun rule hrule => ?_, hsorted⟩
    · have := hle rule hrule
      push_cast at this
      omega
    · have := hle rule hrule
      push_cast at this
      omega

section

open PostgresControlPlane

variable {ρ σ : Renamings} {s : InMemControlPlane} {db tx : Database}

/-- Rows that are read as the rules allotted to a list come in the order of their positions. -/
theorem placed_allotted {rows : List (Row RuleCols)} {accountId nextId : ℤ} {news : List NewRule}
    (hread : List.Forall₂ (fun r rule => ruleFromRow r = .ok rule) rows
      (allotRules accountId nextId 0 news).1) (hlen : news.length ≤ 2 ^ 31) :
    rows.Pairwise fun r r' => r.cols.position ≤ r'.cols.position := by
  have hpositions : rows.map (fun r => r.cols.position) =
      (allotRules accountId nextId 0 news).1.map Rule.position :=
    forall₂_map_eq hread fun _ _ hr => (ruleFromRow_ids hr).2.2.symm
  have hsorted := (allotRules_sorted accountId nextId 0 ((Nat.zero_add _).trans_le hlen)).2
  exact List.pairwise_map.mp (hpositions ▸ List.pairwise_map.mpr hsorted)

/-- They belong to the account, come after the ids given out so far, and are as many. -/
theorem allotted_rows {rows : List (Row RuleCols)} {accountId nextId : ℤ} {news : List NewRule}
    (hread : List.Forall₂ (fun r rule => ruleFromRow r = .ok rule) rows
      (allotRules accountId nextId 0 news).1) :
    (∀ r ∈ rows, r.cols.accountId = accountId ∧ nextId < r.id) ∧ rows.length = news.length := by
  constructor
  · intro r hr
    obtain ⟨rule, hrule, hreads⟩ := forall₂_mem_right hread.flip hr
    obtain ⟨hid, haccount, -⟩ := ruleFromRow_ids hreads
    obtain ⟨i, hget⟩ := List.mem_iff_getElem?.mp hrule
    rw [← haccount, ← hid]
    exact ⟨(allotRules_get accountId hget).1, (allotRules_ids rule hrule).1⟩
  · rw [hread.length_eq, ← List.length_map Rule.submitted, allotRules_submitted]

theorem Mirrors.stored (h : Mirrors ρ s db) {n : Text} {rec : AccountRecord}
    {row : Row AccountCols} (hrec : s.accounts.lookup n = some rec)
    (hrow : db.accountNamed n = some row) : AccountStored ρ db rec row := by
  have hrel := h.accounts n
  rw [hrec, hrow] at hrel
  exact Option.rel_some_some.mp hrel

/-- A write to the rows of one account. -/
theorem Mirrors.accounts_insert (h : Mirrors ρ s db) (hle : ρ ≤ σ) {n : Text}
    {row : Row AccountCols} (hrow : db.accountNamed n = some row)
    (haccounts : tx.accounts = db.accounts)
    (hrules : ∀ id, id ≠ row.id → (tx.rules.select fun r => r.accountId = id) =
      db.rules.select fun r => r.accountId = id)
    (hups : ∀ id, id ≠ row.id → upstreamRows tx id = upstreamRows db id) {rec : AccountRecord}
    (hnew : AccountStored σ tx rec row) (n' : Text) :
    Option.Rel (AccountStored σ tx) ((s.accounts.insert n rec).lookup n')
      (tx.accountNamed n') := by
  rw [accountNamed_congr haccounts, HashMap.lookup_insert]
  by_cases hn : n' = n
  · rw [hn, hrow, if_pos rfl]
    exact .some hnew
  · rw [if_neg hn]
    rcases h.account_cases n' with ⟨hnone, hnone'⟩ | ⟨rec', row', hrec', hrow', hstored'⟩
    · rw [hnone, hnone']
      exact .none
    · rw [hrec', hrow']
      have hne : row'.id ≠ row.id := fun hid => hn (accountNamed_inj hrow' hrow hid)
      exact .some (hstored'.frame hle (hrules _ hne) (hups _ hne))

/-- The counters when the rules of one account are replaced: the tables drop those of the rules
that go, and no new rule has one in either store. -/
theorem Mirrors.counters_replaced (h : Mirrors ρ s db) (k : ℕ) {id : ℤ}
    {rows : List (Row RuleCols)} (hrows : ∀ r ∈ rows, db.rules.serial < r.id)
    (hrules : tx.rules.rows = (db.deleteRules id).rules.rows ++ rows)
    (hquota : tx.quotaCounters.rows = (db.deleteRules id).quotaCounters.rows) {i j ws : ℤ}
    (hij : (ρ.rule.extend _ _ k h.ruleIds).Rel i j) (hpresent : Present tx.rules.rows j) :
    s.counter i ws = tx.counter j ws := by
  rw [counter_congr hquota]
  rcases Renaming.rel_extend h.ruleIds _ hij with hold | ⟨hi, hj⟩
  · have hkept : Present (db.deleteRules id).rules.rows j := by
      obtain ⟨r, hr, rfl⟩ := hpresent
      rw [hrules] at hr
      rcases List.mem_append.mp hr with hkept | hnew
      · exact ⟨r, hkept, rfl⟩
      · have := hrows r hnew
        have := (h.ruleIds i r.id hold).2
        omega
    rw [counter_deleteRules hkept]
    refine h.counters i j ws hold ?_
    obtain ⟨r, hr, hid⟩ := hkept
    exact ⟨r, (List.mem_filter.mp hr).1, hid⟩
  · have hgone : ¬ Present (db.deleteRules id).rules.rows j := by
      rintro ⟨r, hr, rfl⟩
      have := db.rules.issued r (List.mem_filter.mp hr).1
      omega
    rw [counter_absent hgone]
    exact h.unused i ws hi

/-- Both stores replace the rules of an account that is there. -/
theorem Mirrors.storeRules (h : Mirrors ρ s db) {n : Text} {rec : AccountRecord}
    {row : Row AccountCols} (hrec : s.accounts.lookup n = some rec)
    (hrow : db.accountNamed n = some row) {news : List NewRule}
    (hnews : ∀ new ∈ news, NulFree new.targetValue ∧ new.Complete)
    (hlen : news.length ≤ 2 ^ 31) :
    ∃ (rule : Renaming ℤ ℤ) (out : List Rule) (tx : Database), ρ.rule ≤ rule ∧
      insertRules row.id 0 news (db.deleteRules row.id) = (.ok out, tx) ∧
      List.Forall₂ (Rule.Same { ρ with rule })
        (allotRules rec.account.id s.nextRuleId 0 news).1 out ∧
      Mirrors { ρ with rule } { s with
        nextRuleId := s.nextRuleId + news.length
        accounts := s.accounts.insert n
          { rec with rules := (allotRules rec.account.id s.nextRuleId 0 news).1 } } tx := by
  have hstored := h.stored hrec hrow
  have hpresent : Present (db.deleteRules row.id).accounts.rows row.id :=
    ⟨row, (accountNamed_spec hrow).1, rfl⟩
  obtain ⟨tx, rows, hloop, hadded, hread⟩ :=
    insertRules_complete 0 (db.deleteRules row.id) hpresent hnews
  obtain ⟨hrows, hlength⟩ := allotted_rows hread
  have hselect : ∀ id, ((Database.rules tx).select fun r => r.accountId = id) =
      if id = row.id then rows else db.rules.select fun r => r.accountId = id :=
    Table.select_replaced hadded.rules fun r hr => (hrows r hr).1
  let σ : Renamings := { ρ with rule := ρ.rule.extend _ _ news.length h.ruleIds }
  have hle : ρ ≤ σ := ⟨Renaming.le_extend h.ruleIds _, le_rfl, le_rfl⟩
  have haccount : σ.account.Rel rec.account.id row.id := hstored.account.1
  have hsame : List.Forall₂ (Rule.Same σ) (allotRules rec.account.id s.nextRuleId 0 news).1
      (allotRules row.id db.rules.serial 0 news).1 :=
    allotRules_same haccount (fun _ => Renaming.extend_next h.ruleIds _) 0
  have hupsSame : ∀ id, upstreamRows tx id = upstreamRows db id :=
    upstreamRows_congr hadded.upstreams
  have hnew : AccountStored σ tx
      { rec with rules := (allotRules rec.account.id s.nextRuleId 0 news).1 } row := by
    refine ⟨hstored.account.mono hle, ?_, ?_, ?_⟩
    · rw [hselect, if_pos rfl]
      exact ⟨_, hread, hsame⟩
    · rw [hselect, if_pos rfl]
      exact placed_allotted hread hlen
    · rw [hupsSame]
      exact (hstored.frame hle rfl rfl).upstreams
  refine ⟨σ.rule, _, tx, hle.1, hloop, hsame, ?_, ?_, ?_, ?_, ?_, ?_⟩
  · exact h.accounts_insert hle hrow hadded.accounts
      (fun id hne => by rw [hselect, if_neg hne]) (fun id _ => hupsSame id) hnew
  · have hserial : (Database.rules tx).serial = db.rules.serial + rows.length := hadded.serial
    rw [hserial, hlength]
    exact Renaming.extend_below h.ruleIds _
  · rw [hadded.upstreams]
    exact h.upstreamIds
  · rw [hadded.accounts]
    exact h.accountIds
  · exact fun i j ws => h.counters_replaced _ (fun r hr => (hrows r hr).2) hadded.rules
      (congrArg Table.rows hadded.quotaCounters)
  · exact fun id ws hid => h.unused id ws (by dsimp only at hid; omega)

/-! ### Upstreams -/

theorem allotUpstreams_accountId {accountId : Option ℤ} {isPreset : Bool} {nextId : ℤ}
    {news : List NewUpstream} : ∀ up ∈ (allotUpstreams accountId isPreset nextId news).1,
      up.accountId = accountId := by
  induction news generalizing nextId with
  | nil => simp [allotUpstreams]
  | cons new news ih =>
    simp only [allotUpstreams, List.forall_mem_cons]
    exact ⟨trivial, ih⟩

theorem allotted_upstream_rows {rows : List (Row UpstreamCols)} {accountId : Option ℤ}
    {nextId : ℤ} {news : List NewUpstream}
    (hread : List.Forall₂ (fun r up => upstreamFromRow r = .ok up) rows
      (allotUpstreams accountId false nextId news).1) :
    (∀ r ∈ rows, r.cols.accountId = accountId) ∧ rows.length = news.length := by
  constructor
  · intro r hr
    obtain ⟨up, hup, hreads⟩ := forall₂_mem_right hread.flip hr
    rw [← (upstreamFromRow_ids hreads).2]
    exact allotUpstreams_accountId up hup
  · rw [hread.length_eq, ← List.length_map Upstream.submitted, allotUpstreams_submitted]

/-- Both stores replace the upstreams of an account that is there. -/
theorem Mirrors.storeUpstreams (h : Mirrors ρ s db) {n : Text} {rec : AccountRecord}
    {row : Row AccountCols} (hrec : s.accounts.lookup n = some rec)
    (hrow : db.accountNamed n = some row) {news : List NewUpstream}
    (hnul : ∀ new ∈ news, NulFreeUpstream new) (hnames : (news.map NewUpstream.name).Nodup) :
    ∃ (upstream : Renaming ℤ ℤ) (out : List Upstream) (tx : Database), ρ.upstream ≤ upstream ∧
      insertUpstreams row.id news (db.deleteUpstreams row.id) = (.ok out, tx) ∧
      List.Forall₂ (Upstream.Same { ρ with upstream })
        (allotUpstreams (some rec.account.id) false s.nextUpstreamId news).1 out ∧
      Mirrors { ρ with upstream } { s with
        nextUpstreamId := s.nextUpstreamId + news.length
        accounts := s.accounts.insert n { rec with
          upstreams := (allotUpstreams (some rec.account.id) false s.nextUpstreamId news).1 } }
        tx := by
  have hstored := h.stored hrec hrow
  have hpresent : Present (db.deleteUpstreams row.id).accounts.rows row.id :=
    ⟨row, (accountNamed_spec hrow).1, rfl⟩
  obtain ⟨tx, rows, hloop, hadded, hread⟩ :=
    insertUpstreams_distinct (db.deleteUpstreams row.id) hpresent hnul hnames
      fun new _ => nameFree_deleteUpstreams db row.id new.name
  obtain ⟨hrows, hlength⟩ := allotted_upstream_rows hread
  have hselect : ∀ id, upstreamRows tx id = if id = row.id then rows else upstreamRows db id := by
    intro id
    have hreplaced := Table.select_replaced hadded.upstreams hrows (some id)
    simp only [Option.some_inj] at hreplaced
    exact hreplaced
  let σ : Renamings := { ρ with upstream := ρ.upstream.extend _ _ news.length h.upstreamIds }
  have hle : ρ ≤ σ := ⟨le_rfl, Renaming.le_extend h.upstreamIds _, le_rfl⟩
  have haccount : Option.Rel σ.account.Rel (some rec.account.id) (some row.id) :=
    .some hstored.account.1
  have hsame : List.Forall₂ (Upstream.Same σ)
      (allotUpstreams (some rec.account.id) false s.nextUpstreamId news).1
      (allotUpstreams (some row.id) false db.upstreams.serial news).1 :=
    allotUpstreams_same haccount false fun _ => Renaming.extend_next h.upstreamIds _
  have hrulesSame : ∀ id, ((Database.rules tx).select fun r => r.accountId = id) =
      db.rules.select fun r => r.accountId = id := fun id => by
    rw [hadded.rules]
    rfl
  have hnew : AccountStored σ tx { rec with
      upstreams := (allotUpstreams (some rec.account.id) false s.nextUpstreamId news).1 } row := by
    refine ⟨hstored.account.mono hle, ?_, ?_, ?_⟩
    · rw [hrulesSame]
      exact (hstored.frame hle rfl rfl).rules
    · rw [hrulesSame]
      exact hstored.placed
    · rw [hselect, if_pos rfl]
      exact ⟨_, hread, hsame⟩
  refine ⟨σ.upstream, _, tx, hle.2.1, hloop, hsame, ?_, ?_, ?_, ?_, ?_, h.unused⟩
  · exact h.accounts_insert hle hrow hadded.accounts (fun id _ => hrulesSame id)
      (fun id hne => by rw [hselect, if_neg hne]) hnew
  · rw [hadded.rules]
    exact h.ruleIds
  · have hserial : tx.upstreams.serial = db.upstreams.serial + rows.length := hadded.serial
    rw [hserial, hlength]
    exact Renaming.extend_below h.upstreamIds _
  · rw [hadded.accounts]
    exact h.accountIds
  · intro i j ws hij hpresent
    rw [counter_congr (congrArg Table.rows hadded.quotaCounters)]
    rw [hadded.rules] at hpresent
    exact h.counters i j ws hij hpresent

/-! ### Reads -/

theorem Mirrors.getAccount (h : Mirrors ρ s db) {n : Text} (hn : NulFree n) :
    ∃ found, PostgresControlPlane.getAccount db n = .ok found ∧
      Option.Rel (Account.Same ρ) (s.getAccount n) found := by
  unfold PostgresControlPlane.getAccount InMemControlPlane.getAccount
  rw [bindText_of_nulFree hn]
  refine ⟨_, rfl, ?_⟩
  rw [accountRow_eq]
  rcases h.account_cases n with ⟨hnone, hnone'⟩ | ⟨rec, row, hrec, hrow, hstored⟩
  · rw [hnone, hnone']
    exact .none
  · rw [hrec, hrow]
    exact .some hstored.account

/-- The rules of an account, all of them stored, come in the order of their positions. -/
theorem Mirrors.rules (h : Mirrors ρ s db) {n : Text} (hn : NulFree n) :
    ∃ rules, PostgresControlPlane.rules db n = .ok rules ∧
      List.Forall₂ (Rule.Same ρ) (s.rules n) rules ∧
      ∀ rule ∈ rules, Present db.rules.rows rule.id := by
  unfold PostgresControlPlane.rules InMemControlPlane.rules
  rw [accountId_named db hn]
  rcases h.account_cases n with ⟨hnone, hnone'⟩ | ⟨rec, row, hrec, hrow, hstored⟩
  · rw [hnone, hnone']
    exact ⟨[], rfl, .nil, by simp⟩
  · rw [hrec, hrow]
    obtain ⟨rules, hread, hsame⟩ := hstored.rules
    refine ⟨rules, ?_, hsame, fun rule hrule => ?_⟩
    · have hordered := mapM_ok_iff.mpr hread
      rw [← Table.orderBy_eq_self hstored.placed] at hordered
      exact hordered
    · obtain ⟨r, hr, hreads⟩ := forall₂_mem_right hread hrule
      exact ⟨r, (List.mem_filter.mp hr).1, (ruleFromRow_ids hreads).1.symm⟩

theorem Mirrors.listUpstreams (h : Mirrors ρ s db) {n : Text} (hn : NulFree n) :
    ∃ ups, PostgresControlPlane.listUpstreams db n = .ok ups ∧
      List.Forall₂ (Upstream.Same ρ) (s.listUpstreams n) ups := by
  unfold PostgresControlPlane.listUpstreams InMemControlPlane.listUpstreams
  rw [accountId_named db hn]
  rcases h.account_cases n with ⟨hnone, hnone'⟩ | ⟨rec, row, hrec, hrow, hstored⟩
  · rw [hnone, hnone']
    exact ⟨[], rfl, .nil⟩
  · rw [hrec, hrow]
    obtain ⟨ups, hread, hsame⟩ := hstored.upstreams
    exact ⟨ups, mapM_ok_iff.mpr hread, hsame⟩

theorem Mirrors.activeUpstream (h : Mirrors ρ s db) {n : Text} (hn : NulFree n) :
    ∃ up, PostgresControlPlane.activeUpstream db n = .ok up ∧
      Option.Rel (Upstream.Same ρ) (s.activeUpstream n) up := by
  unfold PostgresControlPlane.activeUpstream InMemControlPlane.activeUpstream
  rw [accountId_named db hn]
  rcases h.account_cases n with ⟨hnone, hnone'⟩ | ⟨rec, row, hrec, hrow, hstored⟩
  · rw [hnone, hnone']
    exact ⟨none, rfl, .none⟩
  · rw [hrec, hrow]
    obtain ⟨ups, hread, hsame⟩ := hstored.upstreams
    refine ⟨ups.head?, ?_, forall₂_head? hsame⟩
    change (upstreamRows db row.id).head?.mapM upstreamFromRow = .ok ups.head?
    rcases optionRel_cases (forall₂_head? hread) with ⟨hrows, hups⟩ | ⟨r, up, hrows, hups, hreads⟩
    · rw [hrows, hups]
      rfl
    · rw [hrows, hups]
      simp [hreads]

/-! ### Charges -/

/-- One counter is set in both stores. -/
theorem Mirrors.count (h : Mirrors ρ s db) {i j : ℤ} (hij : ρ.rule.Rel i j) {ws c : ℤ}
    (haccounts : db'.accounts = db.accounts) (hrules : db'.rules = db.rules)
    (hups : db'.upstreams = db.upstreams)
    (hcounter : ∀ id ws', db'.counter id ws' =
      if id = j ∧ ws' = ws then c else db.counter id ws') :
    Mirrors ρ { s with quota := s.quota.insert (i, ws) c } db' := by
  refine ⟨fun n => ?_, ?_, ?_, ?_, fun i' j' ws' hij' hpresent => ?_, fun id ws' hid => ?_⟩
  · rw [accountNamed_congr haccounts]
    refine optionRel_imp (fun _ _ hstored => hstored.frame le_rfl ?_ ?_) (h.accounts n)
    · rw [hrules]
    · exact upstreamRows_congr hups _
  · rw [hrules]
    exact h.ruleIds
  · rw [hups]
    exact h.upstreamIds
  · rw [haccounts]
    exact h.accountIds
  · rw [hrules] at hpresent
    rw [counter_insert, hcounter, h.counters i' j' ws' hij' hpresent]
    simp only [Prod.mk.injEq, ρ.rule.eq_iff hij' hij]
  · have := (h.ruleIds i j hij).1
    rw [counter_insert, if_neg fun hkey => by cases hkey; dsimp only at hid; omega]
    exact h.unused id ws' hid

/-- Charging a stored rule has the same outcome in both stores. -/
theorem Mirrors.recordQuota (h : Mirrors ρ s db) {n : Text} (hn : NulFree n)
    {row : Row AccountCols} (hrow : db.accountNamed n = some row) {i j : ℤ}
    (hij : ρ.rule.Rel i j) (hpresent : Present db.rules.rows j) (limitCount : ℤ)
    (window : Window) (now : ℤ) :
    (s.recordQuota n i limitCount window now).1 =
        (PostgresControlPlane.recordQuota db n j limitCount window now).1 ∧
      Mirrors ρ (s.recordQuota n i limitCount window now).2
        (PostgresControlPlane.recordQuota db n j limitCount window now).2 := by
  have hrun := s.recordQuota_run n i limitCount window now
  generalize s.recordQuota n i limitCount window now = r at hrun ⊢
  have haccount : Present db.accounts.rows row.id := ⟨row, (accountNamed_spec hrow).1, rfl⟩
  unfold PostgresControlPlane.recordQuota
  rw [accountId_named db hn, hrow, Option.map_some]
  cases hrun with
  | zero hle =>
    rw [if_pos hle]
    exact ⟨rfl, h⟩
  | failed hpos hws =>
    rw [if_neg (Int.not_le.mpr hpos), hws]
    exact ⟨rfl, h⟩
  | @refused ws hpos hws hcount =>
    obtain ⟨db', hupsert, haccounts, hrules, hups, hcounter⟩ :=
      upsertCounter_counts ws haccount hpresent hpos
    rw [h.counters i j ws hij hpresent] at hcount ⊢
    rw [if_neg (Int.not_le.mpr hpos), hws]
    dsimp only
    rw [hupsert, if_neg (Int.not_lt.mpr hcount)]
    refine ⟨rfl, h.count hij haccounts hrules hups fun id ws' => ?_⟩
    rw [hcounter, if_neg fun hlt => (Int.not_lt.mpr hcount) hlt.1]
    split_ifs with hkey
    · rw [hkey.1, hkey.2]
    · rfl
  | @counted ws hpos hws hcount =>
    obtain ⟨db', hupsert, haccounts, hrules, hups, hcounter⟩ :=
      upsertCounter_counts ws haccount hpresent hpos
    rw [h.counters i j ws hij hpresent] at hcount ⊢
    rw [if_neg (Int.not_le.mpr hpos), hws]
    dsimp only
    rw [hupsert, if_pos hcount]
    refine ⟨rfl, h.count hij haccounts hrules hups fun id ws' => ?_⟩
    rw [hcounter]
    simp [hcount]

/-! ### Snapshots -/

/-- Rules in the order of their positions are read in the order of their ids. -/
theorem snapshotRules_eq {id : ℤ}
    (hplaced : (db.rules.select fun r => r.accountId = id).Pairwise
      fun r r' => r.cols.position ≤ r'.cols.position) :
    snapshotRules db id = db.rules.select fun r => r.accountId = id := by
  apply Table.filter_orderBy
  refine hplaced.imp_of_mem fun {r r'} hr hr' hle => ?_
  have hr : r.cols.accountId = id := by simpa using (List.mem_filter.mp hr).2
  have hr' : r'.cols.accountId = id := by simpa using (List.mem_filter.mp hr').2
  rw [Prod.Lex.toLex_le_toLex, hr, hr']
  exact .inr ⟨rfl, hle⟩

/-- All rows that a snapshot reads can be read. -/
theorem Mirrors.snapshot_ok (h : Mirrors ρ s db) :
    ∃ snapshot, PostgresControlPlane.snapshot db = .ok snapshot := by
  have hreadable : ∀ id, Present db.accounts.rows id → ∃ rec row, AccountStored ρ db rec row ∧
      row.id = id := by
    rintro id ⟨row, hmem, hid⟩
    have hnamed := accountNamed_of_mem hmem
    rcases h.account_cases row.cols.accountNumber.val with ⟨-, hnone⟩ | ⟨rec, row', -, hrow, hstored⟩
    · rw [hnamed] at hnone
      cases hnone
    · cases hnamed.symm.trans hrow
      exact ⟨rec, row, hstored, hid⟩
  apply PostgresControlPlane.snapshot_ok
  · intro r hr
    obtain ⟨rec, row, hstored, hid⟩ := hreadable _ (db.constraints.rules_fkey r hr)
    obtain ⟨rules, hread, -⟩ := hstored.rules
    obtain ⟨rule, -, hreads⟩ := forall₂_mem_right hread.flip
      (List.mem_filter.mpr ⟨hr, by simp [hid]⟩)
    exact ⟨rule, hreads⟩
  · intro r hr hsome
    obtain ⟨id, hsome⟩ := Option.isSome_iff_exists.mp hsome
    obtain ⟨rec, row, hstored, hid⟩ := hreadable id (db.constraints.upstreams_fkey r hr id hsome)
    obtain ⟨ups, hread, -⟩ := hstored.upstreams
    obtain ⟨up, -, hreads⟩ := forall₂_mem_right hread.flip
      (List.mem_filter.mpr ⟨hr, by simp [hid, hsome]⟩)
    exact ⟨up, hreads⟩

theorem Mirrors.snapshot (h : Mirrors ρ s db) :
    ∃ snapshot, PostgresControlPlane.snapshot db = .ok snapshot ∧
      ∀ n, Option.Rel (AccountPolicy.Same ρ) (s.snapshot.lookup n) (snapshot.lookup n) := by
  obtain ⟨snapshot, htaken⟩ := h.snapshot_ok
  refine ⟨snapshot, htaken, fun n => ?_⟩
  have hreads := snapshot_reads htaken n
  unfold InMemControlPlane.snapshot
  rw [HashMap.lookup_mapVal]
  rcases h.account_cases n with ⟨hnone, hnone'⟩ | ⟨rec, row, hrec, hrow, hstored⟩
  · rw [hnone'] at hreads
    rw [hnone]
    generalize snapshot.lookup n = found at hreads ⊢
    cases hreads with
    | none => exact .none
  · rw [hrow] at hreads
    rw [hrec]
    generalize snapshot.lookup n = found at hreads ⊢
    cases hreads with
    | @some _ policy hreads =>
      obtain ⟨rules, hread, hsame⟩ := hstored.rules
      obtain ⟨ups, hreadUps, hsameUps⟩ := hstored.upstreams
      have hrules : policy.rules = rules := by
        have htaken := mapM_ok_iff.mpr hreads.rules
        rw [snapshotRules_eq hstored.placed, mapM_ok_iff.mpr hread] at htaken
        exact (Except.ok.inj htaken).symm
      have hup : policy.upstream = ups.head? :=
        optionRel_unique (fun _ _ _ hr hr' => Except.ok.inj (hr.symm.trans hr')) hreads.upstream
          (forall₂_head? hreadUps)
      refine .some ⟨?_, ?_⟩
      · rw [hrules]
        exact hsame
      · rw [hup]
        exact forall₂_head? hsameUps

end

end Brdns
