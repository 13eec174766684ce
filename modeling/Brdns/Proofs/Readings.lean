import Brdns.Proofs.Book
import Brdns.Proofs.Steps

/-! What the parts of a snapshot add up to when others write between them. In memory there is one
part. Over the tables the accounts are those of the first statement, the rules those of the second
and the upstreams those of the third. -/

namespace Brdns

open Lib Lib.Fold Database

/-! ### Views -/

/-- What the management API would show at one moment. -/
structure View (ρ υ : Type) where
  listed : Text → Bool
  book : Book ρ υ

def View.map {ρ ρ' υ υ' : Type} (f : ρ → ρ') (g : υ → υ') (self : View ρ υ) : View ρ' υ' :=
  ⟨self.listed, self.book.map f g⟩

def View.submitted (self : View Rule Upstream) : View NewRule NewUpstream :=
  self.map Rule.submitted Upstream.submitted

def ManagementStore.listed {σ : Type} (store : ManagementStore σ) (s : σ) (n : Text) : Bool :=
  match store.getAccount s n with
  | .ok account => account.isSome
  | .error _ => false

def ControlPlane.view {σ : Type} (store : ControlPlane σ) (s : σ) : View Rule Upstream :=
  ⟨store.listed s, store.shelves s⟩

/-- What is known of a store: whether a start finds its book again, in how many parts it takes a
snapshot, and the book that one stands for by what its parts saw, whatever its lists are made of. -/
structure StoreKind where
  durable : Bool
  parts : ℕ
  assemble {ρ υ : Type} : List (View ρ υ) → Book ρ υ
  natural {ρ ρ' υ υ' : Type} (f : ρ → ρ') (g : υ → υ') (views : List (View ρ υ)) :
    assemble (views.map (View.map f g)) = (assemble views).map f g

namespace StoreKind

def memory : StoreKind where
  durable := false
  parts := 1
  assemble
    | [view] => view.book
    | _ => Book.empty
  natural _ _
    | [_] | [] | _ :: _ :: _ => rfl

def tables : StoreKind where
  durable := true
  parts := 3
  assemble
    | [accounts, rules, upstreams] => fun n =>
      if accounts.listed n then ⟨(rules.book n).rules, (upstreams.book n).upstreams⟩ else ⟨[], []⟩
    | _ => Book.empty
  natural f g
    | [accounts, rules, upstreams] => by
      funext n
      change (if accounts.listed n then _ else _) = Lists.map f g (if accounts.listed n then _ else _)
      split_ifs <;> rfl
    | [] | [_] | [_, _] | _ :: _ :: _ :: _ :: _ => rfl

end StoreKind

/-- The parts of a snapshot add up. `Seen s views reading` says that the parts which `reading` has
behind it saw `views`, and that the rest can be read in `s`. -/
structure Store.Gathers {σ ω : Type} (store : Store σ ω) (Good : σ → Prop)
    (assemble : List (View Rule Upstream) → Shelves)
    (Seen : σ → List (View Rule Upstream) → Reading → Prop) : Prop where
  begins : ∀ s, Seen s [] .accounts
  read : ∀ s views reading, Good s → (∀ result, reading ≠ .done result) → Seen s views reading →
    Seen s (views ++ [store.view s]) (store.read s reading)
  failed : ∀ s views e, Seen s views (.done (.error e))
  writes : ∀ s s' views reading, store.Writes s s' → Seen s views reading → Seen s' views reading
  fills : ∀ s views snapshot, Seen s views (.done (.ok snapshot)) →
    (assemble views).Fill snapshot

/-! ### One part -/

namespace InMemControlPlane

inductive Seen : InMemControlPlane → List (View Rule Upstream) → Reading → Prop
  | begins {self : InMemControlPlane} : Seen self [] .accounts
  | taken {self : InMemControlPlane} {view : View Rule Upstream} {snapshot : Snapshot}
      (hfills : Shelves.Fill view.book snapshot) : Seen self [view] (.done (.ok snapshot))
  | failed {self : InMemControlPlane} (views : List (View Rule Upstream)) (e : Failure) :
      Seen self views (.done (.error e))

theorem store_gathers :
    InMemControlPlane.store.Gathers (fun _ => True) StoreKind.memory.assemble Seen where
  begins _ := .begins
  read self views reading _ hmore h := by
    cases h with
    | begins => exact .taken self.fill_snapshot
    | taken | failed => exact absurd rfl (hmore _)
  failed _ views e := .failed views e
  writes self self' views reading _ h := by
    cases h with
    | begins => exact .begins
    | taken hfills => exact .taken hfills
    | failed => exact .failed views _
  fills self views snapshot h := by
    cases h with
    | taken hfills => exact hfills

end InMemControlPlane

/-! ### Three statements -/

namespace PostgresControlPlane

def Grows (db db' : Database) : Prop :=
  ∀ n row, db.accountNamed n = some row → db'.accountNamed n = some row

theorem KeepsRules.grows {db db' : Database} (h : KeepsRules db db') : Grows db db' :=
  fun _ _ hrow => h.accountNamed hrow

theorem grows_replaceRules (db : PostgresControlPlane) (n : Text) (news : List NewRule) :
    Grows db (replaceRules db n news).2 := by
  have haccount := (keepsRules_accountIdOrCreate db n).grows
  have hput := replaceRules_put db n news
  generalize replaceRules db n news = r at hput ⊢
  cases hput with
  | refused => exact haccount
  | rolledBack tx => exact haccount
  | stored hrow hadded =>
    intro n' row hfound
    exact (accountNamed_congr hadded.accounts n').trans (haccount n' row hfound)

/-- A write of the running program is one of the calls, or of no business of these tables. -/
theorem write_of_writes {s s' : PostgresControlPlane × BlocklistTables}
    (h : PostgresControlPlane.store.Writes s s') :
    s'.1 = s.1 ∨ ∃ w, s'.1 = controlPlane.write s.1 w := by
  cases h with
  | managed h =>
    cases h with
    | none => exact .inl rfl
    | createAccount n => exact .inr ⟨.createAccount n, rfl⟩
    | replaceRules n news => exact .inr ⟨.replaceRules n news, rfl⟩
    | replaceUpstreams n news => exact .inr ⟨.replaceUpstreams n news, rfl⟩
  | recordQuota n ruleId limitCount window now =>
    exact .inr ⟨.recordQuota n ruleId limitCount window now, rfl⟩
  | replaceCategories h => exact .inl (replaceCategories_fst h)

theorem grows_write (db : PostgresControlPlane) (w : ControlPlane.Write) :
    Grows db (controlPlane.write db w) := by
  cases w with
  | createAccount n => exact (keepsRules_accountIdOrCreate db n).grows
  | replaceRules n news => exact grows_replaceRules db n news
  | replaceUpstreams n news => exact (keepsRules_replaceUpstreams db n news).grows
  | recordQuota n ruleId limitCount window now =>
    exact (keepsRules_recordQuota db n ruleId limitCount window now).grows

theorem grows_of_writes {s s' : PostgresControlPlane × BlocklistTables}
    (h : PostgresControlPlane.store.Writes s s') : Grows s.1 s'.1 := by
  rcases write_of_writes h with hsame | ⟨w, hwrite⟩
  · rw [hsame]
    exact fun _ _ hrow => hrow
  · rw [hwrite]
    exact grows_write s.1 w

theorem listed_eq (db : PostgresControlPlane) (n : Text) :
    controlPlane.listed db n = (db.accountNamed n).isSome := by
  by_cases hn : NulFree n
  · change (match getAccount db n with | .ok account => account.isSome | .error _ => false) = _
    unfold getAccount
    rw [bindText_of_nulFree hn]
    change ((db.accountRow ⟨n, hn⟩).map _).isSome = _
    rw [accountRow_eq, Option.isSome_map]
  · have hnone : db.accountNamed n = none := by
      cases hfound : db.accountNamed n with
      | none => rfl
      | some row =>
        exact absurd ((accountNamed_spec hfound).2 ▸ row.cols.accountNumber.property) hn
    change (match getAccount db n with | .ok account => account.isSome | .error _ => false) = _
    unfold getAccount bindText
    rw [dif_pos (not_not.mp hn), hnone]
    rfl

/-- The rows of the first statement are the accounts that it saw, and they are still there. -/
structure Roster (db : Database) (view : View Rule Upstream) (rows : List (Row AccountCols)) :
    Prop where
  numbers : rows.Pairwise fun r r' => r.cols.accountNumber ≠ r'.cols.accountNumber
  ids : rows.Pairwise fun r r' => r.id ≠ r'.id
  listed : ∀ n, view.listed n = (rows.find? fun r => r.cols.accountNumber.val = n).isSome
  stay : ∀ n row, (rows.find? fun r => r.cols.accountNumber.val = n) = some row →
    db.accountNamed n = some row

theorem roster (db : PostgresControlPlane) : Roster db (controlPlane.view db) db.accounts.rows where
  numbers := db.constraints.accounts_key
  ids := db.accounts.ordered.imp fun hlt => hlt.ne
  listed := listed_eq db
  stay _ _ hfound := hfound

/-- The rows of the second statement are the rules that it saw for these accounts. -/
def Holds (rows : List (Row AccountCols)) (view : View Rule Upstream) (rules : List (Row RuleCols)) :
    Prop :=
  ∀ n row stored, (rows.find? fun r => r.cols.accountNumber.val = n) = some row →
    List.Forall₂ (fun row rule => ruleFromRow row = .ok rule)
      (rules.filter fun r => r.cols.accountId = row.id) stored →
    stored = (view.book n).rules

inductive Seen : PostgresControlPlane → List (View Rule Upstream) → Reading → Prop
  | begins {db : PostgresControlPlane} : Seen db [] .accounts
  | accounts {db : PostgresControlPlane} {view : View Rule Upstream} {rows : List (Row AccountCols)}
      (hroster : Roster db view rows) : Seen db [view] (.rules rows)
  | rules {db : PostgresControlPlane} {view view' : View Rule Upstream}
      {rows : List (Row AccountCols)} {rules : List (Row RuleCols)}
      (hroster : Roster db view rows) (hholds : Holds rows view' rules)
      (hread : ∀ row ∈ rules, ∃ rule, ruleFromRow row = .ok rule) :
      Seen db [view, view'] (.upstreams rows rules)
  | taken {db : PostgresControlPlane} {view view' view'' : View Rule Upstream} {snapshot : Snapshot}
      (hfills : Shelves.Fill (StoreKind.tables.assemble [view, view', view'']) snapshot) :
      Seen db [view, view', view''] (.done (.ok snapshot))
  | failed {db : PostgresControlPlane} (views : List (View Rule Upstream)) (e : Failure) :
      Seen db views (.done (.error e))

/-- The last statement, on what the others returned. -/
theorem collect_fills {db : PostgresControlPlane} (hsound : SoundUpstreams db)
    {view view' : View Rule Upstream} {rows : List (Row AccountCols)} {rules : List (Row RuleCols)}
    (hroster : Roster db view rows) (hholds : Holds rows view' rules) {snapshot : Snapshot}
    (h : collect rows rules (Table.distinctOn UpstreamCols.accountId
      (Table.orderBy (fun u => u.accountId.getD 0)
        (db.upstreams.select fun u => u.accountId.isSome))) = .ok snapshot) :
    Shelves.Fill (StoreKind.tables.assemble [view, view', controlPlane.view db]) snapshot := by
  unfold collect at h
  generalize hrules : List.foldlM pushRule ∅ _ = byRules at h
  generalize hups : List.foldlM insertActive ∅ _ = byUpstream at h
  cases byRules with
  | error e => cases h
  | ok rulesByAccount =>
  cases byUpstream with
  | error e => cases h
  | ok upstreamByAccount =>
  cases h
  intro n
  rw [takePolicies_lookup hroster.numbers hroster.ids]
  change Lists.Backs (if view.listed n then _ else _) _
  rw [hroster.listed]
  cases hfound : rows.find? fun r => r.cols.accountNumber.val = n with
  | none => exact ⟨rfl, rfl⟩
  | some row =>
    have hups := insertActives_reads hups row.id
    rw [snapshotUpstreams_filter] at hups
    refine ⟨hholds n row _ hfound (pushRules_reads hrules row.id), ?_⟩
    refine upstream_of_read (hroster.stay n row hfound) hsound ?_
    cases hfirst : (upstreamRows db row.id).head? with
    | none => rw [hfirst] at hups; exact hups
    | some first => rw [hfirst] at hups; exact hups

theorem store_gathers : PostgresControlPlane.store.Gathers (fun s => Reachable s.1)
    StoreKind.tables.assemble fun s => Seen s.1 where
  begins _ := .begins
  read s views reading hgood hmore h := by
    cases h with
    | begins => exact .accounts (roster s.1)
    | accounts hroster =>
      refine .rules hroster (fun n row stored hfound hread =>
        rules_of_read (hroster.stay n row hfound) hread) fun row hrow => ?_
      exact ruleFromRow_ok (s.1.constraints.rules_check row
        ((Table.orderBy_perm _ _).mem_iff.mp hrow))
    | rules hroster hholds =>
      change Seen s.1 _ (.done (collect _ _ _))
      cases hcollect : collect _ _ _ with
      | error e => exact .failed _ e
      | ok snapshot =>
        exact .taken (collect_fills hgood.soundUpstreams hroster hholds hcollect)
    | taken | failed => exact absurd rfl (hmore _)
  failed _ views e := .failed views e
  writes s s' views reading hwrites h := by
    have hgrows := grows_of_writes hwrites
    have hstays {view : View Rule Upstream} {rows : List (Row AccountCols)}
        (hroster : Roster s.1 view rows) : Roster s'.1 view rows :=
      { hroster with stay := fun n row hfound => hgrows n row (hroster.stay n row hfound) }
    cases h with
    | begins => exact .begins
    | accounts hroster => exact .accounts (hstays hroster)
    | rules hroster hholds hread => exact .rules (hstays hroster) hholds hread
    | taken hfills => exact .taken hfills
    | failed => exact .failed views _
  fills _ views snapshot h := by
    cases h with
    | taken hfills => exact hfills

end PostgresControlPlane

/-! ### Kinds -/

structure Store.OfKind {σ ω : Type} (store : Store σ ω) (kind : StoreKind) (Good : σ → Prop)
    (Fits : List NewRule → Prop) (Seen : σ → List (View Rule Upstream) → Reading → Prop) : Prop
    extends keepsShelves : store.KeepsShelves Good Fits kind.durable,
      store.Gathers Good kind.assemble Seen

theorem InMemControlPlane.store_ofKind : InMemControlPlane.store.OfKind .memory (fun _ => True)
    (fun _ => True) Seen where
  __ := store_keepsShelves
  __ := store_gathers

theorem PostgresControlPlane.store_ofKind : PostgresControlPlane.store.OfKind .tables
    (fun s => Reachable s.1) (fun news => news.length ≤ 2 ^ 31) fun s => Seen s.1 where
  __ := store_keepsShelves
  __ := store_gathers

end Brdns
