import Mathlib.Data.Prod.Lex
import Brdns.Spec.Enums
import Brdns.Spec.InMem
import Brdns.Spec.Schema

/-! `lib/controlplane/storage/postgres.rs`: the control plane over the tables. Every statement
outside a transaction commits by itself. -/

namespace Brdns

open Lib Database

abbrev PostgresControlPlane := Database

namespace PostgresControlPlane

def upstreamFromRow (row : Row UpstreamCols) : CplResult Upstream := do
  let protocol ← UpstreamProtocol.fromStr row.cols.protocol.val
  if 0 ≤ row.cols.port ∧ row.cols.port < 2 ^ 16 then
    pure { id := row.id, accountId := row.cols.accountId, name := row.cols.name.val, protocol
           host := row.cols.host.val, port := UInt16.ofNat row.cols.port.toNat
           addr := row.cols.addr.map Subtype.val, isPreset := row.cols.isPreset }
  else throw (.error "upstream port out of range")

def ruleFromRow (row : Row RuleCols) : CplResult Rule := do
  let action ← Action.fromStr row.cols.action.val
  let targetType ← TargetType.fromStr row.cols.targetType.val
  let limitWindow ← row.cols.limitWindow.mapM fun w => Window.fromStr w.val
  pure { id := row.id, accountId := row.cols.accountId, position := row.cols.position, action
         targetType, targetValue := row.cols.targetValue.val, limitCount := row.cols.limitCount
         limitWindow, enabled := row.cols.enabled }

/-- The columns of a new upstream, once its texts are bound. -/
def upstreamCols (accountId : Option ℤ) (isPreset : Bool) (new : NewUpstream) :
    CplResult UpstreamCols := do
  let name ← bindText new.name
  let protocol ← bindText new.protocol.asStr
  let host ← bindText new.host
  let addr ← new.addr.mapM bindText
  pure { accountId, name, protocol, host, port := new.port.toNat, addr, isPreset }

def ruleCols (accountId : ℤ) (position : ℕ) (new : NewRule) : CplResult RuleCols := do
  let action ← bindText new.action.asStr
  let targetType ← bindText new.targetType.asStr
  let targetValue ← bindText new.targetValue
  let limitWindow ← new.limitWindow.mapM fun w => bindText w.asStr
  pure { accountId, position := asI32 position, action, targetType, targetValue
         limitCount := new.limitCount, limitWindow, enabled := new.enabled }

/-! ### Start -/

def seedPreset (self : PostgresControlPlane) (preset : NewUpstream) :
    CplResult Unit × PostgresControlPlane :=
  match upstreamCols none true preset with
  | .error e => (.error e, self)
  | .ok cols => self.insertUpstreamUnlessConflict cols

def seedPresets : List NewUpstream → PostgresControlPlane → CplResult Unit × PostgresControlPlane
  | [], self => (.ok (), self)
  | preset :: presets, self =>
    match seedPreset self preset with
    | (.error e, self) => (.error e, self)
    | (.ok (), self) => seedPresets presets self

/-- `connect` to a database whose migrations have run. -/
def connect (self : Database) : CplResult Unit × PostgresControlPlane :=
  seedPresets presetUpstreamsDefault self

/-! ### Accounts -/

def accountId (self : PostgresControlPlane) (accountNumber : Text) : CplResult (Option ℤ) := do
  let accountNumber ← bindText accountNumber
  pure ((self.accountRow accountNumber).map Row.id)

def accountIdOrCreate (self : PostgresControlPlane) (accountNumber : Text) :
    CplResult ℤ × PostgresControlPlane :=
  match bindText accountNumber with
  | .error e => (.error e, self)
  | .ok accountNumber =>
    match self.accountRow accountNumber with
    | some row => (.ok row.id, self)
    | none =>
      let (id, self) := self.upsertAccount accountNumber
      (.ok id, self)

def createAccount (self : PostgresControlPlane) (accountNumber : Text) :
    CplResult Account × PostgresControlPlane :=
  let (id, self) := accountIdOrCreate self accountNumber
  (id.map fun id => ⟨id, accountNumber⟩, self)

def getAccount (self : PostgresControlPlane) (accountNumber : Text) :
    CplResult (Option Account) := do
  let accountNumber ← bindText accountNumber
  pure ((self.accountRow accountNumber).map fun row => ⟨row.id, row.cols.accountNumber.val⟩)

/-! ### Rules -/

def rules (self : PostgresControlPlane) (accountNumber : Text) : CplResult (List Rule) := do
  match ← accountId self accountNumber with
  | none => pure []
  | some id =>
    let rows := Table.orderBy RuleCols.position ((Database.rules self).select fun r => r.accountId = id)
    rows.mapM ruleFromRow

/-- The loop of `replace_rules`, inside its transaction. -/
def insertRules (accountId : ℤ) :
    ℕ → List NewRule → PostgresControlPlane → CplResult (List Rule) × PostgresControlPlane
  | _, [], tx => (.ok [], tx)
  | position, new :: news, tx =>
    match ruleCols accountId position new with
    | .error e => (.error e, tx)
    | .ok cols =>
      match tx.insertRule cols with
      | (.error e, tx) => (.error e, tx)
      | (.ok id, tx) =>
        let rule : Rule :=
          { id, accountId, position := asI32 position, action := new.action
            targetType := new.targetType, targetValue := new.targetValue
            limitCount := new.limitCount, limitWindow := new.limitWindow, enabled := new.enabled }
        match insertRules accountId (position + 1) news tx with
        | (.error e, tx) => (.error e, tx)
        | (.ok out, tx) => (.ok (rule :: out), tx)

def replaceRules (self : PostgresControlPlane) (accountNumber : Text) (news : List NewRule) :
    CplResult (List Rule) × PostgresControlPlane :=
  match accountIdOrCreate self accountNumber with
  | (.error e, self) => (.error e, self)
  | (.ok id, self) =>
    match insertRules id 0 news (self.deleteRules id) with
    | (.error e, tx) => (.error e, self.rollback tx)
    | (.ok out, tx) => (.ok out, tx)

def recordQuota (self : PostgresControlPlane) (accountNumber : Text) (ruleId limitCount : ℤ)
    (window : Window) (now : ℤ) : CplResult Bool × PostgresControlPlane :=
  if limitCount ≤ 0 then (.ok false, self)
  else
    match accountId self accountNumber with
    | .error e => (.error e, self)
    | .ok none => (.ok true, self)
    | .ok (some id) =>
      match Quota.windowStart now window with
      | .error e => (.error e, self)
      | .ok windowStart =>
        let (count, self) := self.upsertCounter id ruleId windowStart limitCount
        (count.map Option.isSome, self)

/-! ### Upstreams -/

/-- `SELECT ... FROM upstreams WHERE account_id = $1 ORDER BY id`. -/
def upstreamRows (self : PostgresControlPlane) (id : ℤ) : List (Row UpstreamCols) :=
  self.upstreams.select fun u => u.accountId = some id

def activeUpstream (self : PostgresControlPlane) (accountNumber : Text) :
    CplResult (Option Upstream) := do
  match ← accountId self accountNumber with
  | none => pure none
  | some id => (upstreamRows self id).head?.mapM upstreamFromRow

def listUpstreams (self : PostgresControlPlane) (accountNumber : Text) :
    CplResult (List Upstream) := do
  match ← accountId self accountNumber with
  | none => pure []
  | some id => (upstreamRows self id).mapM upstreamFromRow

/-- The loop of `replace_upstreams`, inside its transaction. -/
def insertUpstreams (accountId : ℤ) :
    List NewUpstream → PostgresControlPlane → CplResult (List Upstream) × PostgresControlPlane
  | [], tx => (.ok [], tx)
  | new :: news, tx =>
    match upstreamCols (some accountId) false new with
    | .error e => (.error e, tx)
    | .ok cols =>
      match tx.insertUpstream cols with
      | (.error e, tx) => (.error e, tx)
      | (.ok id, tx) =>
        let up : Upstream :=
          { id, accountId := some accountId, name := new.name, protocol := new.protocol
            host := new.host, port := new.port, addr := new.addr, isPreset := false }
        match insertUpstreams accountId news tx with
        | (.error e, tx) => (.error e, tx)
        | (.ok out, tx) => (.ok (up :: out), tx)

def replaceUpstreams (self : PostgresControlPlane) (accountNumber : Text)
    (news : List NewUpstream) : CplResult (List Upstream) × PostgresControlPlane :=
  match accountIdOrCreate self accountNumber with
  | (.error e, self) => (.error e, self)
  | (.ok id, self) =>
    match insertUpstreams id news (self.deleteUpstreams id) with
    | (.error e, tx) => (.error e, self.rollback tx)
    | (.ok out, tx) => (.ok out, tx)

def presetUpstreams (self : PostgresControlPlane) : CplResult (List Upstream) :=
  (self.upstreams.select UpstreamCols.isPreset).mapM upstreamFromRow

/-! ### Snapshot -/

/-- `rules_by_account.entry(account_id).or_default().push(rule)`. -/
def pushRule (map : HashMap ℤ (List Rule)) (row : Row RuleCols) :
    CplResult (HashMap ℤ (List Rule)) := do
  let rule ← ruleFromRow row
  pure (map.insert row.cols.accountId ((map.lookup row.cols.accountId).getD [] ++ [rule]))

def insertActive (map : HashMap ℤ Upstream) (row : Row UpstreamCols) :
    CplResult (HashMap ℤ Upstream) := do
  let up ← upstreamFromRow row
  pure (map.insert (row.cols.accountId.getD 0) up)

/-- Move what was collected for one account into its policy. -/
def takePolicy (maps : Snapshot × HashMap ℤ (List Rule) × HashMap ℤ Upstream)
    (row : Row AccountCols) : Snapshot × HashMap ℤ (List Rule) × HashMap ℤ Upstream :=
  let (out, rulesByAccount, upstreamByAccount) := maps
  (out.insert row.cols.accountNumber.val
      ⟨(rulesByAccount.lookup row.id).getD [], upstreamByAccount.lookup row.id⟩,
    rulesByAccount.erase row.id, upstreamByAccount.erase row.id)

def snapshot (self : PostgresControlPlane) : CplResult Snapshot := do
  let ruleRows := Table.orderBy (fun r => toLex (r.accountId, r.position)) (Database.rules self).rows
  let upstreamRows := Table.distinctOn UpstreamCols.accountId
    (Table.orderBy (fun u => u.accountId.getD 0) (self.upstreams.select fun u => u.accountId.isSome))
  let rulesByAccount ← ruleRows.foldlM pushRule ∅
  let upstreamByAccount ← upstreamRows.foldlM insertActive ∅
  pure (self.accounts.rows.foldl takePolicy (∅, rulesByAccount, upstreamByAccount)).1

/-! ### The statements of a snapshot

They run outside a transaction, and other connections may commit between them. -/

/-- What the statements have returned so far, in their order. -/
inductive Reading where
  | accounts
  | rules (accounts : List (Row AccountCols))
  | upstreams (accounts : List (Row AccountCols)) (rules : List (Row RuleCols))
  | done (result : CplResult Snapshot)

/-- The maps that `snapshot` builds of what its statements returned. -/
def collect (accounts : List (Row AccountCols)) (rules : List (Row RuleCols))
    (upstreams : List (Row UpstreamCols)) : CplResult Snapshot := do
  let rulesByAccount ← rules.foldlM pushRule ∅
  let upstreamByAccount ← upstreams.foldlM insertActive ∅
  pure (accounts.foldl takePolicy (∅, rulesByAccount, upstreamByAccount)).1

/-- The next statement, and the maps after the last one. -/
def read (self : PostgresControlPlane) : Reading → Reading
  | .accounts => .rules self.accounts.rows
  | .rules accounts =>
    .upstreams accounts
      (Table.orderBy (fun r => toLex (r.accountId, r.position)) (Database.rules self).rows)
  | .upstreams accounts rules =>
    .done (collect accounts rules (Table.distinctOn UpstreamCols.accountId
      (Table.orderBy (fun u => u.accountId.getD 0)
        (self.upstreams.select fun u => u.accountId.isSome))))
  | .done result => .done result

end PostgresControlPlane

end Brdns
