import Brdns.Lib.Table
import Brdns.Spec.Model

/-! The tables `accounts`, `rules`, `upstreams` and `quota_counters` of
`migrations/0001_init.sql` and the statements that `lib/controlplane/storage/postgres.rs` runs on
them. The constraints hold of every database; a statement that would break one is refused. -/

namespace Brdns

open Lib

def NulFree (s : Text) : Prop := Char.ofNat 0 ∉ s

instance (s : Text) : Decidable (NulFree s) := inferInstanceAs (Decidable (¬ _))

/-- A value of type TEXT, which holds no NUL character. -/
abbrev PgText := { s : Text // Char.ofNat 0 ∉ s }

structure AccountCols where
  accountNumber : PgText
  deriving DecidableEq

structure RuleCols where
  accountId : ℤ
  position : ℤ
  action : PgText
  targetType : PgText
  targetValue : PgText
  limitCount : Option ℤ
  limitWindow : Option PgText
  enabled : Bool
  deriving DecidableEq

structure UpstreamCols where
  accountId : Option ℤ
  name : PgText
  protocol : PgText
  host : PgText
  port : ℤ
  addr : Option PgText
  isPreset : Bool
  deriving DecidableEq

structure CounterCols where
  accountId : ℤ
  ruleId : ℤ
  windowStart : ℤ
  count : ℤ
  deriving DecidableEq

/-- `column IN (...)`. -/
def isIn (value : PgText) (literals : List String) : Bool :=
  literals.any fun literal => value.val = literal.toList

/-- The CHECK constraints in the order they are looked at, which is by name. -/
def RuleCols.checks (self : RuleCols) : List (String × Bool) :=
  [("rules_action_check", isIn self.action ["allow", "deny", "limit"]),
    ("rules_limit_requires_window",
      !isIn self.action ["limit"] || (self.limitCount.isSome && self.limitWindow.isSome)),
    ("rules_limit_window_check", self.limitWindow.all (isIn · ["hour", "day", "week", "month"])),
    ("rules_target_type_check", isIn self.targetType ["domain", "wildcard", "category"])]

def UpstreamCols.checks (self : UpstreamCols) : List (String × Bool) :=
  [("upstreams_protocol_check", isIn self.protocol ["dot", "doh", "udp"])]

/-- The first CHECK constraint that is broken. -/
def brokenCheck (checks : List (String × Bool)) : Option String :=
  (checks.find? fun check => !check.2).map Prod.fst

/-- The unique constraint that two rows break together. NULLs are distinct. -/
def UpstreamCols.conflict (self other : UpstreamCols) : Option String :=
  if self.accountId.isSome ∧ self.accountId = other.accountId ∧ self.name = other.name then
    some "upstreams_account_id_name_key"
  else if self.isPreset ∧ other.isPreset ∧ self.name = other.name then
    some "idx_upstreams_preset_name"
  else none

/-- A row with the id is there. -/
def Present {α : Type} (rows : List (Row α)) (id : ℤ) : Prop := ∃ r ∈ rows, r.id = id

instance {α : Type} (rows : List (Row α)) (id : ℤ) : Decidable (Present rows id) :=
  inferInstanceAs (Decidable (∃ r ∈ rows, r.id = id))

structure Constraints (accounts : List (Row AccountCols)) (rules : List (Row RuleCols))
    (upstreams : List (Row UpstreamCols)) (quotaCounters : List (Row CounterCols)) : Prop where
  accounts_key : accounts.Pairwise fun r r' => r.cols.accountNumber ≠ r'.cols.accountNumber
  rules_check : ∀ r ∈ rules, brokenCheck r.cols.checks = none
  rules_fkey : ∀ r ∈ rules, Present accounts r.cols.accountId
  upstreams_check : ∀ r ∈ upstreams, brokenCheck r.cols.checks = none
  upstreams_key : upstreams.Pairwise fun r r' => r'.cols.conflict r.cols = none
  upstreams_fkey : ∀ r ∈ upstreams, ∀ id, r.cols.accountId = some id → Present accounts id
  counters_key : quotaCounters.Pairwise fun r r' =>
    ¬ (r.cols.ruleId = r'.cols.ruleId ∧ r.cols.windowStart = r'.cols.windowStart)
  counters_account_fkey : ∀ r ∈ quotaCounters, Present accounts r.cols.accountId
  counters_rule_fkey : ∀ r ∈ quotaCounters, Present rules r.cols.ruleId

section

variable {accounts : List (Row AccountCols)} {rules : List (Row RuleCols)}
  {upstreams : List (Row UpstreamCols)} {quotaCounters : List (Row CounterCols)}

theorem Present.append {α : Type} {rows : List (Row α)} {id : ℤ} (h : Present rows id)
    (new : List (Row α)) : Present (rows ++ new) id :=
  h.imp fun _ hr => ⟨List.mem_append_left new hr.1, hr.2⟩

namespace Constraints

variable (h : Constraints accounts rules upstreams quotaCounters)

include h

theorem insertAccount (r : Row AccountCols)
    (hkey : ∀ r' ∈ accounts, r'.cols.accountNumber ≠ r.cols.accountNumber) :
    Constraints (accounts ++ [r]) rules upstreams quotaCounters where
  __ := h
  accounts_key := List.pairwise_append.mpr ⟨h.accounts_key, List.pairwise_singleton _ _,
    fun r' hr' _ hr => List.mem_singleton.mp hr ▸ hkey r' hr'⟩
  rules_fkey r' hr' := (h.rules_fkey r' hr').append _
  upstreams_fkey r' hr' id hid := (h.upstreams_fkey r' hr' id hid).append _
  counters_account_fkey r' hr' := (h.counters_account_fkey r' hr').append _

theorem insertRule (r : Row RuleCols) (hcheck : brokenCheck r.cols.checks = none)
    (hfkey : Present accounts r.cols.accountId) :
    Constraints accounts (rules ++ [r]) upstreams quotaCounters where
  __ := h
  rules_check := List.forall_mem_append.mpr ⟨h.rules_check, List.forall_mem_singleton.mpr hcheck⟩
  rules_fkey := List.forall_mem_append.mpr ⟨h.rules_fkey, List.forall_mem_singleton.mpr hfkey⟩
  counters_rule_fkey r' hr' := (h.counters_rule_fkey r' hr').append _

/-- A deletion that takes the counters of the deleted rules along. -/
theorem deleteRules (p : Row RuleCols → Bool) (q : Row CounterCols → Bool)
    (hcascade : ∀ r ∈ rules, p r = false → ∀ c, q c → c.cols.ruleId ≠ r.id) :
    Constraints accounts (rules.filter p) upstreams (quotaCounters.filter q) where
  __ := h
  rules_check r hr := h.rules_check r (List.mem_filter.mp hr).1
  rules_fkey r hr := h.rules_fkey r (List.mem_filter.mp hr).1
  counters_key := h.counters_key.filter _
  counters_account_fkey r hr := h.counters_account_fkey r (List.mem_filter.mp hr).1
  counters_rule_fkey c hc := by
    obtain ⟨hmem, hq⟩ := List.mem_filter.mp hc
    obtain ⟨r, hr, hid⟩ := h.counters_rule_fkey c hmem
    cases hp : p r with
    | true => exact ⟨r, List.mem_filter.mpr ⟨hr, hp⟩, hid⟩
    | false => exact absurd hid.symm (hcascade r hr hp c hq)

theorem insertUpstream (r : Row UpstreamCols) (hcheck : brokenCheck r.cols.checks = none)
    (hkey : ∀ r' ∈ upstreams, r.cols.conflict r'.cols = none)
    (hfkey : ∀ id, r.cols.accountId = some id → Present accounts id) :
    Constraints accounts rules (upstreams ++ [r]) quotaCounters where
  __ := h
  upstreams_check :=
    List.forall_mem_append.mpr ⟨h.upstreams_check, List.forall_mem_singleton.mpr hcheck⟩
  upstreams_key := List.pairwise_append.mpr ⟨h.upstreams_key, List.pairwise_singleton _ _,
    fun r' hr' _ hr => List.mem_singleton.mp hr ▸ hkey r' hr'⟩
  upstreams_fkey :=
    List.forall_mem_append.mpr ⟨h.upstreams_fkey, List.forall_mem_singleton.mpr hfkey⟩

theorem deleteUpstreams (p : Row UpstreamCols → Bool) :
    Constraints accounts rules (upstreams.filter p) quotaCounters where
  __ := h
  upstreams_check r hr := h.upstreams_check r (List.mem_filter.mp hr).1
  upstreams_key := h.upstreams_key.filter _
  upstreams_fkey r hr := h.upstreams_fkey r (List.mem_filter.mp hr).1

theorem insertCounter (r : Row CounterCols)
    (hkey : ∀ r' ∈ quotaCounters,
      ¬ (r'.cols.ruleId = r.cols.ruleId ∧ r'.cols.windowStart = r.cols.windowStart))
    (haccount : Present accounts r.cols.accountId) (hrule : Present rules r.cols.ruleId) :
    Constraints accounts rules upstreams (quotaCounters ++ [r]) where
  __ := h
  counters_key := List.pairwise_append.mpr ⟨h.counters_key, List.pairwise_singleton _ _,
    fun r' hr' _ hr => List.mem_singleton.mp hr ▸ hkey r' hr'⟩
  counters_account_fkey := List.forall_mem_append.mpr
    ⟨h.counters_account_fkey, List.forall_mem_singleton.mpr haccount⟩
  counters_rule_fkey :=
    List.forall_mem_append.mpr ⟨h.counters_rule_fkey, List.forall_mem_singleton.mpr hrule⟩

/-- Counting changes no key. -/
theorem updateCounters (f : Row CounterCols → Row CounterCols)
    (hf : ∀ r, (f r).cols.accountId = r.cols.accountId ∧ (f r).cols.ruleId = r.cols.ruleId ∧
      (f r).cols.windowStart = r.cols.windowStart) :
    Constraints accounts rules upstreams (quotaCounters.map f) where
  __ := h
  counters_key := by
    refine List.pairwise_map.mpr (h.counters_key.imp fun {r r'} hne => ?_)
    rw [(hf r).2.1, (hf r').2.1, (hf r).2.2, (hf r').2.2]
    exact hne
  counters_account_fkey := List.forall_mem_map.mpr fun r hr =>
    (hf r).1.symm ▸ h.counters_account_fkey r hr
  counters_rule_fkey := List.forall_mem_map.mpr fun r hr =>
    (hf r).2.1.symm ▸ h.counters_rule_fkey r hr

end Constraints

end

structure Database where
  accounts : Table AccountCols
  rules : Table RuleCols
  upstreams : Table UpstreamCols
  quotaCounters : Table CounterCols
  constraints : Constraints accounts.rows rules.rows upstreams.rows quotaCounters.rows

namespace Database

/-- The tables as the migration creates them. -/
def empty : Database where
  accounts := .empty
  rules := .empty
  upstreams := .empty
  quotaCounters := .empty
  constraints := by constructor <;> simp [Table.empty]

/-- A text parameter of a statement. -/
def bindText (s : Text) : CplResult PgText :=
  if h : Char.ofNat 0 ∈ s then
    .error (.error "invalid byte sequence for encoding \"UTF8\": 0x00")
  else .ok ⟨s, h⟩

theorem bindText_of_nulFree {s : Text} (h : NulFree s) : bindText s = .ok ⟨s, h⟩ := dif_neg h

theorem bindText_ok {s : Text} {t : PgText} (h : bindText s = .ok t) : t.val = s := by
  unfold bindText at h
  split_ifs at h
  cases h
  rfl

theorem nulFree_of_bindText {s : Text} {t : PgText} (h : bindText s = .ok t) : NulFree s :=
  bindText_ok h ▸ t.property

def checkError (table constraint : String) : Failure :=
  .error s!"new row for relation \"{table}\" violates check constraint \"{constraint}\""

def uniqueError (constraint : String) : Failure :=
  .error s!"duplicate key value violates unique constraint \"{constraint}\""

def foreignKeyError (table constraint : String) : Failure :=
  .error s!"insert or update on table \"{table}\" violates foreign key constraint \"{constraint}\""

/-! ### Accounts -/

/-- `SELECT ... FROM accounts WHERE account_number = $1`. -/
def accountRow (self : Database) (accountNumber : PgText) : Option (Row AccountCols) :=
  self.accounts.rows.find? fun r => r.cols.accountNumber = accountNumber

/-- `INSERT INTO accounts ... ON CONFLICT (account_number) DO UPDATE ... RETURNING id`. -/
def upsertAccount (self : Database) (accountNumber : PgText) : ℤ × Database :=
  match h : self.accountRow accountNumber with
  | some r => (r.id, { self with accounts := self.accounts.advance 1 })
  | none => (self.accounts.serial + 1, { self with
      accounts := self.accounts.insert ⟨accountNumber⟩
      constraints := self.constraints.insertAccount _ fun r hr => by
        simpa using List.find?_eq_none.mp h r hr })

/-! ### Rules -/

/-- `DELETE FROM rules WHERE account_id = $1`, which cascades to `quota_counters`. -/
def deleteRules (self : Database) (accountId : ℤ) : Database :=
  let deleted := (self.rules.select fun r => r.accountId = accountId).map Row.id
  { self with
    rules := self.rules.deleteWhere fun r => r.accountId = accountId
    quotaCounters := self.quotaCounters.deleteWhere fun c => c.ruleId ∈ deleted
    constraints := by
      refine self.constraints.deleteRules _ _ fun r hr hp c hc heq => ?_
      have hmem : r.id ∈ deleted :=
        List.mem_map.mpr ⟨r, List.mem_filter.mpr ⟨hr, by simpa using hp⟩, rfl⟩
      simp [heq, hmem] at hc }

/-- `INSERT INTO rules ... RETURNING id`. -/
def insertRule (self : Database) (cols : RuleCols) : CplResult ℤ × Database :=
  match hcheck : brokenCheck cols.checks with
  | some name => (.error (checkError "rules" name), { self with rules := self.rules.advance 1 })
  | none =>
    if hfkey : Present self.accounts.rows cols.accountId then
      (.ok (self.rules.serial + 1), { self with
        rules := self.rules.insert cols
        constraints := self.constraints.insertRule _ hcheck hfkey })
    else
      (.error (foreignKeyError "rules" "rules_account_id_fkey"),
        { self with rules := self.rules.advance 1 })

/-! ### Upstreams -/

/-- `DELETE FROM upstreams WHERE account_id = $1`. -/
def deleteUpstreams (self : Database) (accountId : ℤ) : Database :=
  { self with
    upstreams := self.upstreams.deleteWhere fun u => u.accountId = some accountId
    constraints := self.constraints.deleteUpstreams _ }

/-- The unique constraint that a new row would break. -/
def upstreamConflict (self : Database) (cols : UpstreamCols) : Option String :=
  self.upstreams.rows.findSome? fun r => cols.conflict r.cols

/-- `INSERT INTO upstreams ... RETURNING id`. -/
def insertUpstream (self : Database) (cols : UpstreamCols) : CplResult ℤ × Database :=
  let failed : Database := { self with upstreams := self.upstreams.advance 1 }
  match hcheck : brokenCheck cols.checks with
  | some name => (.error (checkError "upstreams" name), failed)
  | none =>
    match hkey : self.upstreamConflict cols with
    | some name => (.error (uniqueError name), failed)
    | none =>
      if hfkey : ∀ id ∈ cols.accountId, Present self.accounts.rows id then
        (.ok (self.upstreams.serial + 1), { self with
          upstreams := self.upstreams.insert cols
          constraints := self.constraints.insertUpstream _ hcheck
            (List.findSome?_eq_none_iff.mp hkey) hfkey })
      else (.error (foreignKeyError "upstreams" "upstreams_account_id_fkey"), failed)

/-- `INSERT INTO upstreams ... ON CONFLICT DO NOTHING`. -/
def insertUpstreamUnlessConflict (self : Database) (cols : UpstreamCols) :
    CplResult Unit × Database :=
  match self.upstreamConflict cols with
  | some _ => (.ok (), { self with upstreams := self.upstreams.advance 1 })
  | none =>
    let (id, self) := self.insertUpstream cols
    (id.map fun _ => (), self)

/-! ### Counters -/

def counterRow (self : Database) (ruleId windowStart : ℤ) : Option (Row CounterCols) :=
  self.quotaCounters.rows.find? fun r =>
    r.cols.ruleId = ruleId ∧ r.cols.windowStart = windowStart

/-- `INSERT INTO quota_counters ... ON CONFLICT (rule_id, window_start) DO UPDATE SET count =
quota_counters.count + 1 WHERE quota_counters.count < $4 RETURNING count`. -/
def upsertCounter (self : Database) (accountId ruleId windowStart limitCount : ℤ) :
    CplResult (Option ℤ) × Database :=
  let drawn : Database := { self with quotaCounters := self.quotaCounters.advance 1 }
  match hkey : self.counterRow ruleId windowStart with
  | some r =>
    if r.cols.count < limitCount then
      (.ok (some (r.cols.count + 1)), { drawn with
        quotaCounters := drawn.quotaCounters.updateWhere
          (fun c => c.ruleId = ruleId ∧ c.windowStart = windowStart)
          fun c => { c with count := c.count + 1 }
        constraints := self.constraints.updateCounters _ fun r => by
          split_ifs <;> exact ⟨rfl, rfl, rfl⟩ })
    else (.ok none, drawn)
  | none =>
    if haccount : Present self.accounts.rows accountId then
      if hrule : Present self.rules.rows ruleId then
        (.ok (some 1), { self with
          quotaCounters := self.quotaCounters.insert ⟨accountId, ruleId, windowStart, 1⟩
          constraints := self.constraints.insertCounter _
            (fun r hr => by simpa using List.find?_eq_none.mp hkey r hr) haccount hrule })
      else
        (.error (foreignKeyError "quota_counters" "quota_counters_rule_id_fkey"), drawn)
    else (.error (foreignKeyError "quota_counters" "quota_counters_account_id_fkey"), drawn)

/-! ### Transactions -/

/-- The database a failed transaction leaves behind. -/
def rollback (before tx : Database) : Database :=
  { before with
    accounts := before.accounts.rollback tx.accounts
    rules := before.rules.rollback tx.rules
    upstreams := before.upstreams.rollback tx.upstreams
    quotaCounters := before.quotaCounters.rollback tx.quotaCounters }

end Database

end Brdns
