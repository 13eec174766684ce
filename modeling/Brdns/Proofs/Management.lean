import Brdns.Lib.Renaming
import Brdns.Spec.InMem

/-! The management writes in closed form. Each makes sure of the account's record and then
replaces one part of it; the ids it gives out follow the last ones given out. -/

namespace Brdns

open Lib

namespace InMemControlPlane

/-! ### Allotted ids -/

theorem allotRules_last (accountId nextId : ℤ) (position : ℕ) (news : List NewRule) :
    (allotRules accountId nextId position news).2 = nextId + news.length := by
  induction news generalizing nextId position with
  | nil => simp [allotRules]
  | cons new news ih =>
    simp only [allotRules, ih, List.length_cons]
    push_cast
    omega

theorem allotRules_map_id (accountId nextId : ℤ) (position : ℕ) (news : List NewRule) :
    (allotRules accountId nextId position news).1.map Rule.id = idsAfter nextId news.length := by
  induction news generalizing nextId position with
  | nil => rfl
  | cons new news ih => simp only [allotRules, List.map_cons, ih, List.length_cons, idsAfter]

theorem allotRules_ids {accountId nextId : ℤ} {position : ℕ} {news : List NewRule} :
    ∀ r ∈ (allotRules accountId nextId position news).1,
      nextId < r.id ∧ r.id ≤ nextId + news.length := by
  intro r hr
  apply mem_idsAfter
  rw [← allotRules_map_id accountId nextId position news]
  exact List.mem_map_of_mem hr

theorem allotRules_unique {accountId nextId : ℤ} {position : ℕ} {news : List NewRule} :
    ∀ r ∈ (allotRules accountId nextId position news).1,
      ∀ r' ∈ (allotRules accountId nextId position news).1, r.id = r'.id → r = r' := by
  have hnodup := nodup_idsAfter nextId news.length
  rw [← allotRules_map_id accountId nextId position news] at hnodup
  intro r hr r' hr' hid
  exact List.inj_on_of_nodup_map hnodup hr hr' hid

theorem allotUpstreams_last (accountId : Option ℤ) (isPreset : Bool) (nextId : ℤ)
    (news : List NewUpstream) :
    (allotUpstreams accountId isPreset nextId news).2 = nextId + news.length := by
  induction news generalizing nextId with
  | nil => simp [allotUpstreams]
  | cons new news ih =>
    simp only [allotUpstreams, ih, List.length_cons]
    push_cast
    omega

/-! ### Closed forms -/

/-- The record of an account, or the one it gets on its first write. -/
def recordOf (self : InMemControlPlane) (n : Text) : AccountRecord :=
  (self.accounts.lookup n).getD ⟨⟨self.nextAccountId + 1, n⟩, [], []⟩

theorem recordOf_rules (self : InMemControlPlane) (n : Text) :
    (self.recordOf n).rules = self.rules n := by
  unfold recordOf rules
  cases self.accounts.lookup n <;> rfl

/-- The rules of the accounts after a write to one of them. -/
theorem rules_insert (self : InMemControlPlane) (n n' : Text) (rec : AccountRecord) :
    ({ self with accounts := self.accounts.insert n rec } : InMemControlPlane).rules n' =
      if n' = n then rec.rules else self.rules n' := by
  unfold rules
  rw [HashMap.lookup_insert]
  split_ifs <;> rfl

def accountIdAfter (self : InMemControlPlane) (n : Text) : ℤ :=
  if n ∈ self.accounts then self.nextAccountId else self.nextAccountId + 1

theorem le_accountIdAfter (self : InMemControlPlane) (n : Text) :
    self.nextAccountId ≤ self.accountIdAfter n := by
  unfold accountIdAfter
  split_ifs <;> omega

theorem getOrCreate_eq (self : InMemControlPlane) (n : Text) :
    self.getOrCreate n = ((self.recordOf n).account, { self with
      nextAccountId := self.accountIdAfter n
      accounts := self.accounts.insert n (self.recordOf n) }) := by
  unfold getOrCreate recordOf accountIdAfter
  cases h : self.accounts.lookup n with
  | none =>
    rw [if_neg (Finmap.lookup_eq_none.mp h)]
    rfl
  | some rec =>
    rw [if_pos (Finmap.mem_of_lookup_eq_some h), Option.getD_some, HashMap.insert_of_lookup h]

def newRules (self : InMemControlPlane) (n : Text) (news : List NewRule) : List Rule :=
  (allotRules (self.recordOf n).account.id self.nextRuleId 0 news).1

theorem replaceRules_eq (self : InMemControlPlane) (n : Text) (news : List NewRule) :
    self.replaceRules n news = (.ok (self.newRules n news), { self with
      nextAccountId := self.accountIdAfter n
      nextRuleId := self.nextRuleId + news.length
      accounts := self.accounts.insert n
        { self.recordOf n with rules := self.newRules n news } }) := by
  simp only [replaceRules, getOrCreate_eq, storeRules, Finmap.lookup_insert, Finmap.insert_insert,
    allotRules_last, newRules]

def newUpstreams (self : InMemControlPlane) (n : Text) (news : List NewUpstream) :
    List Upstream :=
  (allotUpstreams (some (self.recordOf n).account.id) false self.nextUpstreamId news).1

theorem replaceUpstreams_eq (self : InMemControlPlane) (n : Text) (news : List NewUpstream) :
    self.replaceUpstreams n news = (.ok (self.newUpstreams n news), { self with
      nextAccountId := self.accountIdAfter n
      nextUpstreamId := self.nextUpstreamId + news.length
      accounts := self.accounts.insert n
        { self.recordOf n with upstreams := self.newUpstreams n news } }) := by
  simp only [replaceUpstreams, getOrCreate_eq, storeUpstreams, Finmap.lookup_insert,
    Finmap.insert_insert, allotUpstreams_last, newUpstreams]

/-! ### The rules after a write -/

theorem rules_createAccount (self : InMemControlPlane) (n n' : Text) :
    (self.createAccount n).2.rules n' = self.rules n' := by
  rw [createAccount, getOrCreate_eq]
  refine (self.rules_insert n n' _).trans ?_
  split_ifs with hn
  · rw [recordOf_rules, hn]
  · rfl

theorem rules_replaceRules (self : InMemControlPlane) (n n' : Text) (news : List NewRule) :
    (self.replaceRules n news).2.rules n' =
      if n' = n then self.newRules n news else self.rules n' := by
  rw [replaceRules_eq]
  exact self.rules_insert n n' _

theorem rules_replaceUpstreams (self : InMemControlPlane) (n n' : Text)
    (news : List NewUpstream) : (self.replaceUpstreams n news).2.rules n' = self.rules n' := by
  rw [replaceUpstreams_eq]
  refine (self.rules_insert n n' _).trans ?_
  split_ifs with hn
  · exact hn ▸ self.recordOf_rules n'
  · rfl

/-! ### Quota -/

def counter (self : InMemControlPlane) (ruleId ws : ℤ) : ℤ :=
  (self.quota.lookup (ruleId, ws)).getD 0

theorem counter_insert (self : InMemControlPlane) (id ws id' ws' count : ℤ) :
    ({ self with quota := self.quota.insert (id, ws) count } : InMemControlPlane).counter id' ws' =
      if (id', ws') = (id, ws) then count else self.counter id' ws' := by
  rw [counter, HashMap.lookup_insert]
  split_ifs <;> rfl

end InMemControlPlane

inductive QuotaRun (self : InMemControlPlane) (ruleId limitCount : ℤ) (window : Window)
    (now : ℤ) : CplResult Bool × InMemControlPlane → Prop
  | zero (hle : limitCount ≤ 0) : QuotaRun self ruleId limitCount window now (.ok false, self)
  | failed {e : Failure} (hpos : 0 < limitCount) (hws : Quota.windowStart now window = .error e) :
      QuotaRun self ruleId limitCount window now (.error e, self)
  | refused {ws : ℤ} (hpos : 0 < limitCount) (hws : Quota.windowStart now window = .ok ws)
      (hcount : limitCount ≤ self.counter ruleId ws) :
      QuotaRun self ruleId limitCount window now (.ok false, { self with
        quota := self.quota.insert (ruleId, ws) (self.counter ruleId ws) })
  | counted {ws : ℤ} (hpos : 0 < limitCount) (hws : Quota.windowStart now window = .ok ws)
      (hcount : self.counter ruleId ws < limitCount) :
      QuotaRun self ruleId limitCount window now (.ok true, { self with
        quota := self.quota.insert (ruleId, ws) (self.counter ruleId ws + 1) })

theorem InMemControlPlane.recordQuota_run (self : InMemControlPlane) (n : Text)
    (ruleId limitCount : ℤ) (window : Window) (now : ℤ) :
    QuotaRun self ruleId limitCount window now
      (self.recordQuota n ruleId limitCount window now) := by
  unfold recordQuota
  split_ifs with hle
  · exact .zero hle
  · cases hws : Quota.windowStart now window with
    | error e => exact .failed (Int.not_le.mp hle) hws
    | ok ws =>
      dsimp only
      split_ifs with hcount
      · exact .refused (Int.not_le.mp hle) hws hcount
      · exact .counted (Int.not_le.mp hle) hws (Int.not_le.mp hcount)

section

variable {cp : InMemControlPlane} {id limitCount : ℤ} {window : Window} {now : ℤ}
  {r : CplResult Bool × InMemControlPlane}

/-- A charge changes counters only. -/
theorem QuotaRun.frame (h : QuotaRun cp id limitCount window now r) :
    ∃ quota, r.2 = { cp with quota } := by
  cases h <;> exact ⟨_, rfl⟩

theorem QuotaRun.counter_other (h : QuotaRun cp id limitCount window now r) {id' : ℤ}
    (hne : id' ≠ id) (ws : ℤ) : r.2.counter id' ws = cp.counter id' ws := by
  cases h with
  | zero | failed => rfl
  | refused | counted =>
    rw [InMemControlPlane.counter_insert, if_neg fun hkey => hne (congrArg Prod.fst hkey)]

end

end Brdns
