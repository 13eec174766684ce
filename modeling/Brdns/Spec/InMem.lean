import Brdns.Spec.Quota

/-! `lib/controlplane/storage/inmem.rs`: the in-memory control plane. Each function here is one
critical section of its mutex, except `replaceRules` and `replaceUpstreams`, which are two. -/

namespace Brdns

open Lib

/-- `preset_upstreams_default` of `lib/controlplane/mod.rs`. -/
def presetUpstreamsDefault : List NewUpstream :=
  [⟨"cloudflare-dot".toList, .Dot, "1.1.1.1".toList, 853, none⟩,
    ⟨"cloudflare-doh".toList, .Doh, "cloudflare-dns.com".toList, 443,
      some "1.1.1.1:443".toList⟩,
    ⟨"quad9-dot".toList, .Dot, "9.9.9.9".toList, 853, none⟩,
    ⟨"quad9-doh".toList, .Doh, "dns.quad9.net".toList, 443, some "9.9.9.9:443".toList⟩]

structure AccountRecord where
  account : Account
  rules : List Rule
  upstreams : List Upstream
  deriving DecidableEq

structure InMemControlPlane where
  accounts : HashMap Text AccountRecord
  presets : List Upstream
  /-- (rule id, window start) to query count. -/
  quota : HashMap (ℤ × ℤ) ℤ
  categories : CategoryMap
  lastIngestion : Option ℤ
  nextAccountId : ℤ
  nextRuleId : ℤ
  nextUpstreamId : ℤ

namespace InMemControlPlane

/-- New upstreams with the ids that follow `nextId`, and the last id given out. -/
def allotUpstreams (accountId : Option ℤ) (isPreset : Bool) :
    ℤ → List NewUpstream → List Upstream × ℤ
  | nextId, [] => ([], nextId)
  | nextId, new :: news =>
    let up : Upstream :=
      { id := nextId + 1, accountId, name := new.name, protocol := new.protocol
        host := new.host, port := new.port, addr := new.addr, isPreset }
    let (ups, last) := allotUpstreams accountId isPreset (nextId + 1) news
    (up :: ups, last)

/-- New rules with the ids that follow `nextId`, in list order, and the last id given out. -/
def allotRules (accountId : ℤ) : ℤ → ℕ → List NewRule → List Rule × ℤ
  | nextId, _, [] => ([], nextId)
  | nextId, position, new :: news =>
    let rule : Rule :=
      { id := nextId + 1, accountId, position := asI32 position, action := new.action
        targetType := new.targetType, targetValue := new.targetValue
        limitCount := new.limitCount, limitWindow := new.limitWindow, enabled := new.enabled }
    let (rules, last) := allotRules accountId (nextId + 1) (position + 1) news
    (rule :: rules, last)

def default : InMemControlPlane :=
  let (presets, last) := allotUpstreams none true 0 presetUpstreamsDefault
  { accounts := ∅, presets, quota := ∅, categories := ∅, lastIngestion := none
    nextAccountId := 0, nextRuleId := 0, nextUpstreamId := last }

def getOrCreate (self : InMemControlPlane) (accountNumber : Text) :
    Account × InMemControlPlane :=
  match self.accounts.lookup accountNumber with
  | some rec => (rec.account, self)
  | none =>
    let account : Account := ⟨self.nextAccountId + 1, accountNumber⟩
    (account, { self with
      nextAccountId := self.nextAccountId + 1
      accounts := self.accounts.insert accountNumber ⟨account, [], []⟩ })

def rules (self : InMemControlPlane) (accountNumber : Text) : List Rule :=
  ((self.accounts.lookup accountNumber).map AccountRecord.rules).getD []

def activeUpstream (self : InMemControlPlane) (accountNumber : Text) : Option Upstream :=
  (self.accounts.lookup accountNumber).bind fun rec => rec.upstreams.head?

def recordQuota (self : InMemControlPlane) (_accountNumber : Text) (ruleId limitCount : ℤ)
    (window : Window) (now : ℤ) : CplResult Bool × InMemControlPlane :=
  if limitCount ≤ 0 then (.ok false, self)
  else
    match Quota.windowStart now window with
    | .error e => (.error e, self)
    | .ok windowStart =>
      let count := (self.quota.lookup (ruleId, windowStart)).getD 0
      -- `or_insert(0)` leaves an entry even when the query is refused
      if count ≥ limitCount then
        (.ok false, { self with quota := self.quota.insert (ruleId, windowStart) count })
      else
        (.ok true, { self with quota := self.quota.insert (ruleId, windowStart) (count + 1) })

def createAccount (self : InMemControlPlane) (accountNumber : Text) :
    Account × InMemControlPlane := self.getOrCreate accountNumber

def getAccount (self : InMemControlPlane) (accountNumber : Text) : Option Account :=
  (self.accounts.lookup accountNumber).map AccountRecord.account

/-- The second critical section of `replace_rules`. -/
def storeRules (self : InMemControlPlane) (account : Account) (accountNumber : Text)
    (news : List NewRule) : CplResult (List Rule) × InMemControlPlane :=
  let (out, last) := allotRules account.id self.nextRuleId 0 news
  let self := { self with nextRuleId := last }
  match self.accounts.lookup accountNumber with
  | none => (.error (.panic "just created"), self)
  | some rec =>
    (.ok out, { self with
      accounts := self.accounts.insert accountNumber { rec with rules := out } })

def replaceRules (self : InMemControlPlane) (accountNumber : Text) (news : List NewRule) :
    CplResult (List Rule) × InMemControlPlane :=
  let (account, self) := self.getOrCreate accountNumber
  self.storeRules account accountNumber news

def listUpstreams (self : InMemControlPlane) (accountNumber : Text) : List Upstream :=
  ((self.accounts.lookup accountNumber).map AccountRecord.upstreams).getD []

/-- The second critical section of `replace_upstreams`. -/
def storeUpstreams (self : InMemControlPlane) (account : Account) (accountNumber : Text)
    (news : List NewUpstream) : CplResult (List Upstream) × InMemControlPlane :=
  let (out, last) := allotUpstreams (some account.id) false self.nextUpstreamId news
  let self := { self with nextUpstreamId := last }
  match self.accounts.lookup accountNumber with
  | none => (.error (.panic "just created"), self)
  | some rec =>
    (.ok out, { self with
      accounts := self.accounts.insert accountNumber { rec with upstreams := out } })

def replaceUpstreams (self : InMemControlPlane) (accountNumber : Text)
    (news : List NewUpstream) : CplResult (List Upstream) × InMemControlPlane :=
  let (account, self) := self.getOrCreate accountNumber
  self.storeUpstreams account accountNumber news

def presetUpstreams (self : InMemControlPlane) : List Upstream := self.presets

def replaceCategories (self : InMemControlPlane) (categories : CategoryMap) (now : ℤ) :
    InMemControlPlane :=
  { self with categories, lastIngestion := some now }

def snapshot (self : InMemControlPlane) : Snapshot :=
  HashMap.mapVal (fun rec => ⟨rec.rules, rec.upstreams.head?⟩) self.accounts

end InMemControlPlane

end Brdns
