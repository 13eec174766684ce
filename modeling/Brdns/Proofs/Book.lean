import Brdns.Proofs.BulkSnapshot
import Brdns.Proofs.Writes
import Brdns.Spec.Runtime

/-! What a control plane is for: it keeps the lists that were last submitted for each account. Both
stores keep such a book, under the ids that they gave, and a snapshot of either is read off it. -/

namespace Brdns

open Lib Lib.Fold Database InMemControlPlane

/-! ### Books -/

structure Lists (ρ υ : Type) where
  rules : List ρ
  upstreams : List υ
  deriving DecidableEq

/-- Lists as they come, without ids. -/
abbrev Submission := Lists NewRule NewUpstream

namespace Lists

variable {ρ ρ' υ υ' : Type}

def map (f : ρ → ρ') (g : υ → υ') (self : Lists ρ υ) : Lists ρ' υ' :=
  ⟨self.rules.map f, self.upstreams.map g⟩

def submitted (self : Lists Rule Upstream) : Submission :=
  self.map Rule.submitted Upstream.submitted

/-- A policy holds what the store has. -/
structure Backs (stored : Lists Rule Upstream) (cached : Option AccountPolicy) : Prop where
  rules : Pipeline.cachedRules cached = stored.rules
  upstream : cached.bind AccountPolicy.upstream = stored.upstreams.head?

end Lists

/-- A policy holds what was submitted, under the ids that the store gave. -/
structure Submission.Stands (policy : Submission) (cached : Option AccountPolicy) : Prop where
  rules : (Pipeline.cachedRules cached).map Rule.submitted = policy.rules
  upstream : (cached.bind AccountPolicy.upstream).map Upstream.submitted = policy.upstreams.head?

theorem Lists.Backs.submitted {stored : Lists Rule Upstream} {cached : Option AccountPolicy}
    (h : stored.Backs cached) : Submission.Stands stored.submitted cached := by
  refine ⟨congrArg (List.map Rule.submitted) h.rules, ?_⟩
  rw [h.upstream]
  exact List.head?_map.symm

abbrev Book (ρ υ : Type) := Text → Lists ρ υ

/-- What a store has. -/
abbrev Shelves := Book Rule Upstream

namespace Book

section

variable {ρ ρ' υ υ' : Type}

def empty : Book ρ υ := fun _ => ⟨[], []⟩

def putRules (self : Book ρ υ) (n : Text) (rules : List ρ) : Book ρ υ :=
  Function.update self n { self n with rules }

def putUpstreams (self : Book ρ υ) (n : Text) (upstreams : List υ) : Book ρ υ :=
  Function.update self n { self n with upstreams }

def map (f : ρ → ρ') (g : υ → υ') (self : Book ρ υ) : Book ρ' υ' := fun n => (self n).map f g

theorem map_putRules (f : ρ → ρ') (g : υ → υ') (self : Book ρ υ) (n : Text) (rules : List ρ) :
    (self.putRules n rules).map f g = (self.map f g).putRules n (rules.map f) := by
  funext n'
  unfold map putRules
  rw [Function.update_apply, Function.update_apply]
  split_ifs <;> rfl

theorem map_putUpstreams (f : ρ → ρ') (g : υ → υ') (self : Book ρ υ) (n : Text)
    (upstreams : List υ) :
    (self.putUpstreams n upstreams).map f g = (self.map f g).putUpstreams n (upstreams.map g) := by
  funext n'
  unfold map putUpstreams
  rw [Function.update_apply, Function.update_apply]
  split_ifs <;> rfl

end

def Governs (self : Book NewRule NewUpstream) (snapshot : Snapshot) : Prop :=
  ∀ n, Submission.Stands (self n) (snapshot.lookup n)

theorem governs_empty : empty.Governs ∅ := fun _ => ⟨rfl, rfl⟩

end Book

namespace Shelves

def submitted (self : Shelves) : Book NewRule NewUpstream :=
  self.map Rule.submitted Upstream.submitted

/-- The policies are exactly what the store has. -/
def Fill (self : Shelves) (snapshot : Snapshot) : Prop :=
  ∀ n, (self n).Backs (snapshot.lookup n)

theorem Fill.governs {self : Shelves} {snapshot : Snapshot} (h : self.Fill snapshot) :
    self.submitted.Governs snapshot := fun n => (h n).submitted

end Shelves

def given {α : Type} : CplResult (List α) → List α
  | .ok out => out
  | .error _ => []

/-- What a store lists for each account. A number that it refuses has nothing. -/
def ControlPlane.shelves {σ : Type} (store : ControlPlane σ) (self : σ) : Shelves := fun n =>
  ⟨given (store.rules self n), given (store.listUpstreams self n)⟩

/-- The same without the ids that the store gave. -/
def ControlPlane.book {σ : Type} (store : ControlPlane σ) (self : σ) : Book NewRule NewUpstream :=
  (store.shelves self).submitted

/-- What a replacement leaves: the new list as it is answered, or what there was. -/
inductive Replaced {α β : Type} (before : Shelves) (put : List α → Shelves) (submitted : α → β)
    (news : List β) : CplResult (List α) → Shelves → Prop
  | refused {e : Failure} : Replaced before put submitted news (.error e) before
  | stored {out : List α} (hsubmitted : out.map submitted = news) :
      Replaced before put submitted news (.ok out) (put out)

abbrev RulesReplaced (before : Shelves) (n : Text) (news : List NewRule) :=
  Replaced before (before.putRules n) Rule.submitted news

abbrev UpstreamsReplaced (before : Shelves) (n : Text) (news : List NewUpstream) :=
  Replaced before (before.putUpstreams n) Upstream.submitted news

theorem Replaced.of_ok {α β : Type} {before after : Shelves} {put : List α → Shelves}
    {submitted : α → β} {news : List β} {out : List α}
    (h : Replaced before put submitted news (.ok out) after) :
    out.map submitted = news ∧ after = put out := by
  cases h with
  | stored hsubmitted => exact ⟨hsubmitted, rfl⟩

/-- The shelves of a store in its good states change by what is accepted, and by nothing else.
`Fits` are the rule lists that the store can number. -/
structure ControlPlane.KeepsShelves {σ : Type} (store : ControlPlane σ) (Good : σ → Prop)
    (Fits : List NewRule → Prop) : Prop where
  createAccount : ∀ s n, Good s → Good (store.createAccount s n).2 ∧
    store.shelves (store.createAccount s n).2 = store.shelves s
  replaceRules : ∀ s n news, Good s → Fits news → Good (store.replaceRules s n news).2 ∧
    RulesReplaced (store.shelves s) n news (store.replaceRules s n news).1
      (store.shelves (store.replaceRules s n news).2)
  replaceUpstreams : ∀ s n news, Good s → Good (store.replaceUpstreams s n news).2 ∧
    UpstreamsReplaced (store.shelves s) n news (store.replaceUpstreams s n news).1
      (store.shelves (store.replaceUpstreams s n news).2)
  recordQuota : ∀ s n ruleId limitCount window now, Good s →
    Good (store.recordQuota s n ruleId limitCount window now).2 ∧
      store.shelves (store.recordQuota s n ruleId limitCount window now).2 = store.shelves s
  snapshot : ∀ s snapshot, Good s → store.snapshot s = .ok snapshot →
    (store.shelves s).Fill snapshot

/-! ### The shelves in memory -/

namespace InMemControlPlane

theorem shelves_eq (self : InMemControlPlane) (n : Text) :
    controlPlane.shelves self n = ⟨self.rules n, self.listUpstreams n⟩ := rfl

theorem shelves_congr {self self' : InMemControlPlane}
    (h : ∀ n, self'.rules n = self.rules n ∧ self'.listUpstreams n = self.listUpstreams n) :
    controlPlane.shelves self' = controlPlane.shelves self := by
  funext n
  rw [shelves_eq, shelves_eq, (h n).1, (h n).2]

theorem shelves_getOrCreate (self : InMemControlPlane) (n : Text) :
    controlPlane.shelves (self.getOrCreate n).2 = controlPlane.shelves self :=
  shelves_congr fun n' => ⟨self.rules_createAccount n n', self.listUpstreams_getOrCreate n n'⟩

theorem listUpstreams_replaceRules (self : InMemControlPlane) (n n' : Text) (news : List NewRule) :
    (self.replaceRules n news).2.listUpstreams n' = self.listUpstreams n' := by
  rw [replaceRules_eq]
  refine (self.listUpstreams_insert n n' _).trans ?_
  split_ifs with hn
  · exact hn ▸ self.recordOf_upstreams n'
  · rfl

theorem listUpstreams_replaceUpstreams (self : InMemControlPlane) (n n' : Text)
    (news : List NewUpstream) : (self.replaceUpstreams n news).2.listUpstreams n' =
      if n' = n then self.newUpstreams n news else self.listUpstreams n' := by
  rw [replaceUpstreams_eq]
  exact self.listUpstreams_insert n n' _

theorem rulesReplaced (self : InMemControlPlane) (n : Text) (news : List NewRule) :
    RulesReplaced (controlPlane.shelves self) n news (self.replaceRules n news).1
      (controlPlane.shelves (self.replaceRules n news).2) := by
  have hshelves : controlPlane.shelves (self.replaceRules n news).2 =
      (controlPlane.shelves self).putRules n (self.newRules n news) := by
    funext n'
    rw [shelves_eq, rules_replaceRules, listUpstreams_replaceRules, Book.putRules,
      Function.update_apply]
    split_ifs with hn
    · rw [hn]
      rfl
    · rfl
  rw [hshelves, replaceRules_eq]
  exact .stored (allotRules_submitted _ _ _ _)

theorem upstreamsReplaced (self : InMemControlPlane) (n : Text) (news : List NewUpstream) :
    UpstreamsReplaced (controlPlane.shelves self) n news (self.replaceUpstreams n news).1
      (controlPlane.shelves (self.replaceUpstreams n news).2) := by
  have hshelves : controlPlane.shelves (self.replaceUpstreams n news).2 =
      (controlPlane.shelves self).putUpstreams n (self.newUpstreams n news) := by
    funext n'
    rw [shelves_eq, rules_replaceUpstreams, listUpstreams_replaceUpstreams, Book.putUpstreams,
      Function.update_apply]
    split_ifs with hn
    · rw [hn]
      rfl
    · rfl
  rw [hshelves, replaceUpstreams_eq]
  exact .stored (allotUpstreams_submitted _ _ _ _)

theorem fill_snapshot (self : InMemControlPlane) :
    (controlPlane.shelves self).Fill self.snapshot := by
  refine fun n => ⟨Pipeline.cachedRules_snapshot self n, ?_⟩
  change _ = (self.listUpstreams n).head?
  unfold InMemControlPlane.snapshot listUpstreams
  rw [HashMap.lookup_mapVal]
  cases self.accounts.lookup n <;> rfl

theorem keepsShelves : controlPlane.KeepsShelves (fun _ => True) fun _ => True where
  createAccount self n _ := ⟨trivial, self.shelves_getOrCreate n⟩
  replaceRules self n news _ _ := ⟨trivial, self.rulesReplaced n news⟩
  replaceUpstreams self n news _ := ⟨trivial, self.upstreamsReplaced n news⟩
  recordQuota self n ruleId limitCount window now _ := by
    obtain ⟨quota, hquota⟩ := (self.recordQuota_run n ruleId limitCount window now).frame
    refine ⟨trivial, ?_⟩
    change controlPlane.shelves (self.recordQuota n ruleId limitCount window now).2 = _
    rw [hquota]
    rfl
  snapshot self snapshot _ h := by
    cases h
    exact self.fill_snapshot

end InMemControlPlane

/-! ### The shelves in the tables -/

namespace PostgresControlPlane

def shelf (db : Database) (id : ℤ) : Lists Rule Upstream :=
  ⟨given ((Table.orderBy RuleCols.position
      (db.rules.select fun r => r.accountId = id)).mapM ruleFromRow),
    given ((upstreamRows db id).mapM upstreamFromRow)⟩

theorem shelves_named {db : Database} {n : Text} {row : Row AccountCols}
    (h : db.accountNamed n = some row) : controlPlane.shelves db n = shelf db row.id := by
  have hn : NulFree n := (accountNamed_spec h).2 ▸ row.cols.accountNumber.property
  change Lists.mk (given (rules db n)) (given (listUpstreams db n)) = _
  unfold rules listUpstreams
  rw [accountId_named db hn, h]
  rfl

/-- A number without an account has nothing, also where the database refuses its text. -/
theorem shelves_unnamed {db : Database} {n : Text} (h : db.accountNamed n = none) :
    controlPlane.shelves db n = ⟨[], []⟩ := by
  change Lists.mk (given (rules db n)) (given (listUpstreams db n)) = _
  unfold rules listUpstreams
  by_cases hn : NulFree n
  · rw [accountId_named db hn, h]
    rfl
  · unfold accountId bindText
    rw [dif_pos (not_not.mp hn)]
    rfl

theorem shelf_congr {db db' : Database} {id : ℤ}
    (hrules : (db'.rules.select fun r => r.accountId = id) =
      db.rules.select fun r => r.accountId = id)
    (hups : upstreamRows db' id = upstreamRows db id) : shelf db' id = shelf db id := by
  unfold shelf
  rw [hrules, hups]

theorem shelf_absent {db : Database} {id : ℤ} (h : ¬ Present db.accounts.rows id) :
    shelf db id = ⟨[], []⟩ := by
  unfold shelf
  rw [(no_rows h).1, (no_rows h).2]
  rfl

/-- The shelves are the same where each account is found under the same id with the same rows. -/
theorem shelves_congr {db db' : Database} (haccounts : db'.accounts = db.accounts)
    (hrules : ∀ id, (db'.rules.select fun r => r.accountId = id) =
      db.rules.select fun r => r.accountId = id)
    (hups : ∀ id, upstreamRows db' id = upstreamRows db id) :
    controlPlane.shelves db' = controlPlane.shelves db := by
  funext n
  have hnamed := accountNamed_congr haccounts n
  cases hn : db.accountNamed n with
  | none => rw [shelves_unnamed hn, shelves_unnamed (hnamed.trans hn)]
  | some row =>
    rw [shelves_named hn, shelves_named (hnamed.trans hn)]
    exact shelf_congr (hrules row.id) (hups row.id)

theorem shelves_rollback (db tx : Database) :
    controlPlane.shelves (db.rollback tx) = controlPlane.shelves db := by
  funext n
  cases hn : db.accountNamed n with
  | none =>
    rw [shelves_unnamed hn,
      shelves_unnamed (show (db.rollback tx).accountNamed n = none from hn)]
  | some row =>
    rw [shelves_named hn]
    exact shelves_named (show (db.rollback tx).accountNamed n = some row from hn)

/-- Nothing is stored for an account that has just been created. -/
theorem shelves_accountIdOrCreate (db : PostgresControlPlane) (n : Text) :
    controlPlane.shelves (accountIdOrCreate db n).2 = controlPlane.shelves db := by
  by_cases hn : NulFree n
  · rcases accountIdOrCreate_cases db hn with
      ⟨row, -, hrun⟩ | ⟨hnone, db', hrun, haccounts, hrules, hups, -⟩
    · rw [hrun]
    · rw [hrun]
      rw [accountRow_eq] at hnone
      have hshelf (id : ℤ) : shelf db' id = shelf db id :=
        shelf_congr (by rw [hrules]) (upstreamRows_congr hups id)
      have hfresh : ¬ Present db.accounts.rows (db.accounts.serial + 1) := by
        rintro ⟨r, hr, hid⟩
        have := db.accounts.issued r hr
        omega
      funext n'
      have hnamed := accountNamed_insert haccounts n'
      cases hold : db.accountNamed n' with
      | some row =>
        rw [hold, Option.some_or] at hnamed
        rw [shelves_named hnamed, shelves_named hold, hshelf]
      | none =>
        rw [hold, Option.none_or] at hnamed
        rw [shelves_unnamed hold]
        split_ifs at hnamed with heq
        · rw [shelves_named hnamed, hshelf, shelf_absent hfresh]
        · exact shelves_unnamed hnamed
  · unfold accountIdOrCreate bindText
    rw [dif_pos (not_not.mp hn)]

theorem shelves_recordQuota (db : PostgresControlPlane) (n : Text) (ruleId limitCount : ℤ)
    (window : Window) (now : ℤ) :
    controlPlane.shelves (recordQuota db n ruleId limitCount window now).2 =
      controlPlane.shelves db := by
  obtain ⟨haccounts, hrules⟩ := recordQuota_frame db n ruleId limitCount window now
  have hups := upstreams_recordQuota db n ruleId limitCount window now
  exact shelves_congr haccounts (fun _ => by rw [hrules]) (upstreamRows_congr hups)

/-! ### Lists accepted -/

/-- A write to the rows of one account changes what is stored for it and for nobody else. -/
theorem shelves_written {db tx : Database} {n : Text} {row : Row AccountCols}
    (hrow : db.accountNamed n = some row) (haccounts : tx.accounts = db.accounts)
    (hrules : ∀ id, id ≠ row.id → (tx.rules.select fun r => r.accountId = id) =
      db.rules.select fun r => r.accountId = id)
    (hups : ∀ id, id ≠ row.id → upstreamRows tx id = upstreamRows db id) :
    controlPlane.shelves tx = Function.update (controlPlane.shelves db) n (shelf tx row.id) := by
  funext n'
  rw [Function.update_apply]
  have hnamed := accountNamed_congr haccounts n'
  split_ifs with hn
  · rw [hn] at hnamed ⊢
    exact shelves_named (hnamed.trans hrow)
  · cases hold : db.accountNamed n' with
    | none => rw [shelves_unnamed hold, shelves_unnamed (hnamed.trans hold)]
    | some row' =>
      have hne : row'.id ≠ row.id := fun hid => hn (accountNamed_inj hold hrow hid)
      rw [shelves_named hold, shelves_named (hnamed.trans hold)]
      exact shelf_congr (hrules _ hne) (hups _ hne)

theorem rulesReplaced {db : PostgresControlPlane} {n : Text} {news : List NewRule}
    (hlen : news.length ≤ 2 ^ 31) : RulesReplaced (controlPlane.shelves db) n news
      (replaceRules db n news).1 (controlPlane.shelves (replaceRules db n news).2) := by
  have hcreated := shelves_accountIdOrCreate db n
  have hput := replaceRules_put db n news
  generalize replaceRules db n news = r at hput ⊢
  cases hput with
  | refused => exact hcreated.symm ▸ .refused
  | rolledBack tx => exact ((shelves_rollback _ tx).trans hcreated).symm ▸ .refused
  | @stored row rows tx hrow hadded hread =>
    have hselect : ∀ id, ((Database.rules tx).select fun r => r.accountId = id) =
        if id = row.id then rows
        else (Database.rules (accountIdOrCreate db n).2).select fun r => r.accountId = id :=
      Table.select_replaced hadded.rules fun r hr => ((allotted_rows hread).1 r hr).1
    have hups : ∀ id, upstreamRows tx id = upstreamRows (accountIdOrCreate db n).2 id :=
      upstreamRows_congr hadded.upstreams
    have hwritten := shelves_written hrow hadded.accounts
      (fun id hne => by rw [hselect, if_neg hne]) fun id _ => hups id
    generalize hrules : (allotRules row.id _ 0 news).1 = out at hread ⊢
    have hshelf : shelf tx row.id = { controlPlane.shelves db n with rules := out } := by
      rw [← hcreated, shelves_named hrow]
      unfold shelf
      rw [hselect, if_pos rfl, hups, Table.orderBy_eq_self (placed_allotted (hrules ▸ hread) hlen),
        mapM_ok_iff.mpr hread]
      rfl
    rw [hshelf, hcreated] at hwritten
    exact hwritten.symm ▸ .stored (hrules ▸ allotRules_submitted _ _ _ _)

theorem upstreamsReplaced (db : PostgresControlPlane) (n : Text) (news : List NewUpstream) :
    UpstreamsReplaced (controlPlane.shelves db) n news (replaceUpstreams db n news).1
      (controlPlane.shelves (replaceUpstreams db n news).2) := by
  have hcreated := shelves_accountIdOrCreate db n
  have hput := replaceUpstreams_put db n news
  generalize replaceUpstreams db n news = r at hput ⊢
  cases hput with
  | refused => exact hcreated.symm ▸ .refused
  | rolledBack tx => exact ((shelves_rollback _ tx).trans hcreated).symm ▸ .refused
  | @stored row rows tx hrow hadded hread =>
    have hselect : ∀ id, upstreamRows tx id =
        if id = row.id then rows else upstreamRows (accountIdOrCreate db n).2 id := by
      intro id
      have hreplaced := Table.select_replaced hadded.upstreams
        (allotted_upstream_rows hread).1 (some id)
      simp only [Option.some_inj] at hreplaced
      exact hreplaced
    have hrules (id : ℤ) : ((Database.rules tx).select fun r => r.accountId = id) =
        (Database.rules (accountIdOrCreate db n).2).select fun r => r.accountId = id := by
      rw [hadded.rules]
      rfl
    have hwritten := shelves_written hrow hadded.accounts (fun id _ => hrules id)
      fun id hne => by rw [hselect, if_neg hne]
    generalize hups : (allotUpstreams (some row.id) false _ news).1 = out at hread ⊢
    have hshelf : shelf tx row.id = { controlPlane.shelves db n with upstreams := out } := by
      rw [← hcreated, shelves_named hrow]
      unfold shelf
      rw [hselect, if_pos rfl, hrules, mapM_ok_iff.mpr hread]
      rfl
    rw [hshelf, hcreated] at hwritten
    exact hwritten.symm ▸ .stored (hups ▸ allotUpstreams_submitted _ _ _ _)

/-! ### Snapshots of the tables -/

/-- The rules that are read for an account are those that it lists. -/
theorem rules_of_read {db : PostgresControlPlane} {n : Text} {row : Row AccountCols}
    {stored : List Rule} (hrow : db.accountNamed n = some row)
    (hread : List.Forall₂ (fun row rule => ruleFromRow row = .ok rule) (snapshotRules db row.id)
      stored) : stored = (controlPlane.shelves db n).rules := by
  rw [snapshotRules_orderBy, ← mapM_ok_iff] at hread
  rw [shelves_named hrow]
  unfold shelf
  rw [hread]
  rfl

/-- The upstream that is read for an account is the first one that it lists. -/
theorem upstream_of_read {db : PostgresControlPlane} {n : Text} {row : Row AccountCols}
    {stored : Option Upstream} (hrow : db.accountNamed n = some row) (hsound : SoundUpstreams db)
    (hread : Option.Rel (fun row up => upstreamFromRow row = .ok up) (upstreamRows db row.id).head?
      stored) : stored = (controlPlane.shelves db n).upstreams.head? := by
  have hreadable : ∃ ups, (upstreamRows db row.id).mapM upstreamFromRow = .ok ups := by
    refine mapM_ok fun r hr => ?_
    have hmem := (List.mem_filter.mp hr).1
    obtain ⟨up, hup, -⟩ := upstreamFromRow_ok (db.constraints.upstreams_check r hmem) (hsound r hmem)
    exact ⟨up, hup⟩
  obtain ⟨ups, hups⟩ := hreadable
  rw [shelves_named hrow]
  unfold shelf
  rw [hups]
  exact optionRel_unique (fun _ _ _ hr hr' => Except.ok.inj (hr.symm.trans hr')) hread
    (forall₂_head? (mapM_ok_iff.mp hups))

theorem fill_snapshot {db : PostgresControlPlane} (h : Reachable db) {snapshot : Snapshot}
    (hsnapshot : PostgresControlPlane.snapshot db = .ok snapshot) :
    (controlPlane.shelves db).Fill snapshot := by
  intro n
  have hreads := snapshot_reads hsnapshot n
  cases hnamed : db.accountNamed n with
  | none =>
    rw [hnamed] at hreads
    rw [shelves_unnamed hnamed]
    generalize snapshot.lookup n = found at hreads ⊢
    cases hreads
    exact ⟨rfl, rfl⟩
  | some row =>
    rw [hnamed] at hreads
    generalize snapshot.lookup n = found at hreads ⊢
    cases hreads with
    | @some _ policy hreads =>
      exact ⟨rules_of_read hnamed hreads.rules,
        upstream_of_read hnamed h.soundUpstreams hreads.upstream⟩

theorem keepsShelves :
    controlPlane.KeepsShelves Reachable fun news => news.length ≤ 2 ^ 31 where
  createAccount db n h := ⟨.write (.createAccount n) h, shelves_accountIdOrCreate db n⟩
  replaceRules _ n news h hlen := ⟨.write (.replaceRules n news) h, rulesReplaced hlen⟩
  replaceUpstreams db n news h :=
    ⟨.write (.replaceUpstreams n news) h, upstreamsReplaced db n news⟩
  recordQuota _ n ruleId limitCount window now h :=
    ⟨.write (.recordQuota n ruleId limitCount window now) h, shelves_recordQuota _ n _ _ _ _⟩
  snapshot _ _ h hsnapshot := fill_snapshot h hsnapshot

end PostgresControlPlane

/-! ### Whole stores -/

/-- The same with the categories beside it. `durable` says whether a start finds the book again. -/
structure Store.KeepsShelves {σ ω : Type} (store : Store σ ω) (Good : σ → Prop)
    (Fits : List NewRule → Prop) (durable : Bool) : Prop
    extends store.toControlPlane.KeepsShelves Good Fits where
  replaceCategories : ∀ s map world s', Good s → store.replaceCategories s map world = .ok s' →
    Good s' ∧ store.shelves s' = store.shelves s
  connect : ∀ s, Good s → Good (store.connect s) ∧
    store.shelves (store.connect s) = if durable then store.shelves s else Book.empty

theorem InMemControlPlane.store_keepsShelves :
    InMemControlPlane.store.KeepsShelves (fun _ => True) (fun _ => True) false where
  __ := keepsShelves
  replaceCategories self map world self' _ h := by
    cases h
    exact ⟨trivial, rfl⟩
  connect _ _ := ⟨trivial, rfl⟩

namespace PostgresControlPlane

theorem shelves_seedPreset (db : Database) (preset : NewUpstream) :
    controlPlane.shelves (seedPreset db preset).2 = controlPlane.shelves db := by
  unfold seedPreset
  cases hcols : upstreamCols none true preset with
  | error e => rfl
  | ok cols =>
    obtain ⟨haccounts, hrules, hups⟩ := insertUpstream_unowned db (upstreamCols_accountId hcols)
    dsimp only
    unfold insertUpstreamUnlessConflict
    split
    · exact shelves_congr rfl (fun _ => rfl) fun _ => rfl
    · exact shelves_congr haccounts (fun _ => by rw [hrules]) hups

theorem shelves_seedPresets (presets : List NewUpstream) (db : Database) :
    controlPlane.shelves (seedPresets presets db).2 = controlPlane.shelves db := by
  induction presets generalizing db with
  | nil => rfl
  | cons preset presets ih =>
    have hseed := shelves_seedPreset db preset
    unfold seedPresets
    generalize seedPreset db preset = seeded at hseed ⊢
    obtain ⟨result, db'⟩ := seeded
    cases result with
    | error e => exact hseed
    | ok u => exact (ih db').trans hseed

end PostgresControlPlane

theorem ControlPlane.KeepsShelves.first {σ : Type} {store : ControlPlane σ} {Good : σ → Prop}
    {Fits : List NewRule → Prop} (h : store.KeepsShelves Good Fits) (τ : Type) :
    (store.first τ).KeepsShelves (fun s => Good s.1) Fits where
  createAccount s n := h.createAccount s.1 n
  replaceRules s n news := h.replaceRules s.1 n news
  replaceUpstreams s n news := h.replaceUpstreams s.1 n news
  recordQuota s n ruleId limitCount window now := h.recordQuota s.1 n ruleId limitCount window now
  snapshot s snapshot := h.snapshot s.1 snapshot

/-- The other tables stay as they are. -/
theorem PostgresControlPlane.replaceCategories_fst {s s' : PostgresControlPlane × BlocklistTables}
    {map : CategoryMap} {world : ℤ × BlocklistTables.IterationOrder}
    (h : PostgresControlPlane.store.replaceCategories s map world = .ok s') : s'.1 = s.1 := by
  change Except.map _ (BlocklistTables.categoryStore.replaceCategories s.2 map world) = _ at h
  cases hreplaced : BlocklistTables.categoryStore.replaceCategories s.2 map world with
  | error e =>
    rw [hreplaced] at h
    cases h
  | ok tables =>
    rw [hreplaced] at h
    cases h
    rfl

theorem PostgresControlPlane.store_keepsShelves :
    PostgresControlPlane.store.KeepsShelves (fun s => Reachable s.1)
      (fun news => news.length ≤ 2 ^ 31) true where
  __ := keepsShelves.first BlocklistTables
  replaceCategories s map world s' hgood h := by
    have hsame := replaceCategories_fst h
    refine ⟨?_, ?_⟩
    · rw [hsame]
      exact hgood
    · exact congrArg controlPlane.shelves hsame
  connect s hgood := ⟨.connect hgood, shelves_seedPresets presetUpstreamsDefault s.1⟩

/-- The feeds are no business of the book. -/
theorem Store.KeepsShelves.ingest {σ ω : Type} {store : Store σ ω} {Good : σ → Prop}
    {Fits : List NewRule → Prop} {durable : Bool} (h : store.KeepsShelves Good Fits durable) {s : σ}
    (hgood : Good s) (feeds : List Feed) (net : Blocklist.Network) (world : ω)
    (index : CategoryIndex) :
    Good (Blocklist.ingest store.toCategoryStore feeds net world s index).2.1 ∧
      store.shelves (Blocklist.ingest store.toCategoryStore feeds net world s index).2.1 =
        store.shelves s := by
  unfold Blocklist.ingest
  cases net.client with
  | error e => exact ⟨hgood, rfl⟩
  | ok u =>
    dsimp only
    split_ifs
    · exact ⟨hgood, rfl⟩
    · cases hreplaced : store.replaceCategories s (Blocklist.merge feeds net) world with
      | error e => exact ⟨hgood, rfl⟩
      | ok s' => exact h.replaceCategories s _ world s' hgood hreplaced

/-! ### Management requests -/

def carriedOut : CplResult Http.Response → Bool
  | .ok response => response.status == 200
  | .error _ => false

def Book.answered (self : Book NewRule NewUpstream) (req : Http.Request)
    (response : CplResult Http.Response) : Book NewRule NewUpstream :=
  if carriedOut response then
    match req with
    | .replaceRules n (.ok news) => self.putRules n news
    | .replaceUpstreams n (.ok news) => self.putUpstreams n news
    | _ => self
  else self

/-- The shelves, which get a new list as its answer shows it. -/
def Shelves.answered (self : Shelves) : Http.Request → CplResult Http.Response → Shelves
  | .replaceRules n (.ok _), .ok ⟨200, .rules stored⟩ => self.putRules n stored
  | .replaceUpstreams n (.ok _), .ok ⟨200, .upstreams stored⟩ => self.putUpstreams n stored
  | _, _ => self

/-- A request whose rules the store can number. -/
def Http.Request.Fits (Fits : List NewRule → Prop) : Http.Request → Prop
  | .replaceRules _ (.ok news) => Fits news
  | _ => True

structure Answered (before : Shelves) (req : Http.Request) (response : CplResult Http.Response)
    (after : Shelves) : Prop where
  shelves : after = before.answered req response
  book : after.submitted = before.submitted.answered req response

section

variable {before after : Shelves} {n : Text}

/-- A request that submits no list. -/
theorem answered_same {req : Http.Request} {response : CplResult Http.Response}
    (hrules : ∀ n news, req ≠ .replaceRules n (.ok news))
    (hups : ∀ n news, req ≠ .replaceUpstreams n (.ok news)) :
    Answered before req response before := by
  cases req with
  | replaceRules n body =>
    cases body with
    | error rejection => exact ⟨rfl, (ite_self _).symm⟩
    | ok news => exact absurd rfl (hrules n news)
  | replaceUpstreams n body =>
    cases body with
    | error rejection => exact ⟨rfl, (ite_self _).symm⟩
    | ok news => exact absurd rfl (hups n news)
  | _ => exact ⟨rfl, (ite_self _).symm⟩

theorem RulesReplaced.answered {news : List NewRule} {result : CplResult (List Rule)}
    (h : RulesReplaced before n news result after) : Answered before (.replaceRules n (.ok news))
      (Http.answer (fun rs => ⟨200, .rules rs⟩) result) after := by
  cases h with
  | @refused e => cases e <;> exact ⟨rfl, rfl⟩
  | stored hsubmitted => exact ⟨rfl, hsubmitted ▸ Book.map_putRules _ _ _ _ _⟩

theorem UpstreamsReplaced.answered {news : List NewUpstream} {result : CplResult (List Upstream)}
    (h : UpstreamsReplaced before n news result after) :
    Answered before (.replaceUpstreams n (.ok news))
      (Http.answer (fun us => ⟨200, .upstreams us⟩) result) after := by
  cases h with
  | @refused e => cases e <;> exact ⟨rfl, rfl⟩
  | stored hsubmitted => exact ⟨rfl, hsubmitted ▸ Book.map_putUpstreams _ _ _ _ _⟩

end

theorem ControlPlane.KeepsShelves.handle {σ : Type} {store : ControlPlane σ} {Good : σ → Prop}
    {Fits : List NewRule → Prop} (h : store.KeepsShelves Good Fits) {s : σ} (hgood : Good s)
    {req : Http.Request} (hfits : req.Fits Fits) :
    Good (Http.handle store.toManagementStore s req).2 ∧
      Answered (store.shelves s) req (Http.handle store.toManagementStore s req).1
        (store.shelves (Http.handle store.toManagementStore s req).2) := by
  cases req with
  | getAccount n | listRules n | listUpstreams n | listPresets =>
    exact ⟨hgood, answered_same (by simp) (by simp)⟩
  | createAccount body random =>
    cases body with
    | error rejection => exact ⟨hgood, answered_same (by simp) (by simp)⟩
    | ok n =>
      have hcreate : (Http.createAccount store.toManagementStore s n random).2 = s ∨
          ∃ number, (Http.createAccount store.toManagementStore s n random).2 =
            (store.createAccount s number).2 := by
        unfold Http.createAccount
        cases Http.requestedNumber n random with
        | error e => exact .inl rfl
        | ok number =>
          dsimp only
          split_ifs
          · exact .inl rfl
          · exact .inr ⟨number, rfl⟩
      have hkept : Good (Http.createAccount store.toManagementStore s n random).2 ∧
          store.shelves (Http.createAccount store.toManagementStore s n random).2 =
            store.shelves s := by
        rcases hcreate with heq | ⟨number, heq⟩
        · rw [heq]
          exact ⟨hgood, rfl⟩
        · rw [heq]
          exact h.createAccount s number hgood
      exact ⟨hkept.1, hkept.2.symm ▸ answered_same (by simp) (by simp)⟩
  | replaceRules n body =>
    cases body with
    | error rejection => exact ⟨hgood, answered_same (by simp) (by simp)⟩
    | ok news =>
      unfold Http.handle Http.replaceRules
      dsimp only
      split_ifs with hinvalid
      · exact ⟨hgood, rfl, rfl⟩
      · obtain ⟨hgood', hreplaced⟩ := h.replaceRules s n news hgood hfits
        exact ⟨hgood', hreplaced.answered⟩
  | replaceUpstreams n body =>
    cases body with
    | error rejection => exact ⟨hgood, answered_same (by simp) (by simp)⟩
    | ok news =>
      obtain ⟨hgood', hreplaced⟩ := h.replaceUpstreams s n news hgood
      exact ⟨hgood', hreplaced.answered⟩

end Brdns
