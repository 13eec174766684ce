import Brdns.Lib.Relator
import Brdns.Lib.Renaming
import Brdns.Proofs.Query

/-! Tenant isolation. Accounts share the id counters, the quota map, the cache and the transport
pool, yet deleting the steps of all others from a run changes nothing for one account but ids. -/

namespace Brdns

open Lib InMemControlPlane Pipeline

/-! ### The same up to ids -/

structure Renamings where
  rule : Renaming ℤ ℤ
  upstream : Renaming ℤ ℤ
  account : Renaming ℤ ℤ

instance : Preorder Renamings where
  le ρ σ := ρ.rule ≤ σ.rule ∧ ρ.upstream ≤ σ.upstream ∧ ρ.account ≤ σ.account
  le_refl _ := ⟨le_rfl, le_rfl, le_rfl⟩
  le_trans _ _ _ h h' := ⟨h.1.trans h'.1, h.2.1.trans h'.2.1, h.2.2.trans h'.2.2⟩

def Account.Same (ρ : Renamings) (account account' : Account) : Prop :=
  ρ.account.Rel account.id account'.id ∧ account' = { account with id := account'.id }

def Rule.Same (ρ : Renamings) (rule rule' : Rule) : Prop :=
  ρ.rule.Rel rule.id rule'.id ∧ ρ.account.Rel rule.accountId rule'.accountId ∧
    rule' = { rule with id := rule'.id, accountId := rule'.accountId }

def Upstream.Same (ρ : Renamings) (up up' : Upstream) : Prop :=
  ρ.upstream.Rel up.id up'.id ∧ Option.Rel ρ.account.Rel up.accountId up'.accountId ∧
    up' = { up with id := up'.id, accountId := up'.accountId }

structure AccountRecord.Same (ρ : Renamings) (rec rec' : AccountRecord) : Prop where
  account : rec.account.Same ρ rec'.account
  rules : List.Forall₂ (Rule.Same ρ) rec.rules rec'.rules
  upstreams : List.Forall₂ (Upstream.Same ρ) rec.upstreams rec'.upstreams

structure AccountPolicy.Same (ρ : Renamings) (policy policy' : AccountPolicy) : Prop where
  rules : List.Forall₂ (Rule.Same ρ) policy.rules policy'.rules
  upstream : Option.Rel (Upstream.Same ρ) policy.upstream policy'.upstream

/-- What a step made for an account returns is the same up to ids; answers are equal. -/
inductive Output.Same (ρ : Renamings) : Output → Output → Prop
  | account {x x' : Account} (h : x.Same ρ x') : Output.Same ρ (.account x) (.account x')
  | rules {rs rs' : List Rule} (h : List.Forall₂ (Rule.Same ρ) rs rs') :
      Output.Same ρ (.rules (.ok rs)) (.rules (.ok rs'))
  | upstreams {ups ups' : List Upstream} (h : List.Forall₂ (Upstream.Same ρ) ups ups') :
      Output.Same ρ (.upstreams (.ok ups)) (.upstreams (.ok ups'))
  | upstream {up up' : Option Upstream} (h : Option.Rel (Upstream.Same ρ) up up') :
      Output.Same ρ (.upstream up) (.upstream up')
  | answer (x : Answer) : Output.Same ρ (.answer x) (.answer x)

section

variable {ρ σ : Renamings} (h : ρ ≤ σ)

include h

theorem Account.Same.mono {account account' : Account} (hsame : account.Same ρ account') :
    account.Same σ account' := ⟨h.2.2 _ _ hsame.1, hsame.2⟩

theorem Rule.Same.mono {rule rule' : Rule} (hsame : rule.Same ρ rule') : rule.Same σ rule' :=
  ⟨h.1 _ _ hsame.1, h.2.2 _ _ hsame.2.1, hsame.2.2⟩

theorem Upstream.Same.mono {up up' : Upstream} (hsame : up.Same ρ up') : up.Same σ up' :=
  ⟨h.2.1 _ _ hsame.1, optionRel_imp h.2.2 hsame.2.1, hsame.2.2⟩

theorem AccountRecord.Same.mono {rec rec' : AccountRecord} (hsame : rec.Same ρ rec') :
    rec.Same σ rec' where
  account := hsame.account.mono h
  rules := hsame.rules.imp fun _ _ => Rule.Same.mono h
  upstreams := hsame.upstreams.imp fun _ _ => Upstream.Same.mono h

theorem AccountPolicy.Same.mono {policy policy' : AccountPolicy} (hsame : policy.Same ρ policy') :
    policy.Same σ policy' where
  rules := hsame.rules.imp fun _ _ => Rule.Same.mono h
  upstream := optionRel_imp (fun _ _ => Upstream.Same.mono h) hsame.upstream

theorem Output.Same.mono {output output' : Output} (hsame : Output.Same ρ output output') :
    Output.Same σ output output' := by
  cases hsame with
  | account hsame => exact .account (hsame.mono h)
  | rules hsame => exact .rules (hsame.imp fun _ _ => Rule.Same.mono h)
  | upstreams hsame => exact .upstreams (hsame.imp fun _ _ => Upstream.Same.mono h)
  | upstream hsame => exact .upstream (optionRel_imp (fun _ _ => Upstream.Same.mono h) hsame)
  | answer x => exact .answer x

end

/-! ### What two runs agree on -/

/-- The control planes of two runs agree on one account: its records are the same up to ids, and
ids that correspond have the same counters. -/
structure InMemControlPlane.Agree (a : Text) (ρ : Renamings) (s t : InMemControlPlane) : Prop where
  store : Option.Rel (AccountRecord.Same ρ) (s.accounts.lookup a) (t.accounts.lookup a)
  ruleIds : ρ.rule.Below s.nextRuleId t.nextRuleId
  upstreamIds : ρ.upstream.Below s.nextUpstreamId t.nextUpstreamId
  accountIds : ρ.account.Below s.nextAccountId t.nextAccountId
  counters : ∀ i j ws, ρ.rule.Rel i j → s.counter i ws = t.counter j ws
  unused : ∀ id ws, s.nextRuleId < id → s.counter id ws = 0
  unused' : ∀ id ws, t.nextRuleId < id → t.counter id ws = 0

def Server.Uses (self : Server) (n : Text) (rule : Rule) : Prop :=
  rule ∈ self.cp.rules n ∨ rule ∈ cachedRules (self.cache.lookup n)

/-- Two servers agree on one account, and no other account uses its rule ids in the first. -/
structure Server.Agree (fallback : Transport) (a : Text) (ρ : Renamings) (s t : Server) :
    Prop where
  cp : s.cp.Agree a ρ t.cp
  cache : Option.Rel (AccountPolicy.Same ρ) (s.cache.lookup a) (t.cache.lookup a)
  categories : s.categories = t.categories
  upstreams : UpstreamPool.Sound fallback s.upstreams
  upstreams' : UpstreamPool.Sound fallback t.upstreams
  others : ∀ n rule, n ≠ a → s.Uses n rule →
    rule.id ≤ s.cp.nextRuleId ∧ ∀ j, ¬ ρ.rule.Rel rule.id j

/-! ### Control plane steps -/

namespace InMemControlPlane

theorem allotRules_same {ρ : Renamings} {accountId accountId' : ℤ}
    (haccount : ρ.account.Rel accountId accountId') {news : List NewRule} {last last' : ℤ}
    (hids : ∀ k : ℤ, 0 < k → k ≤ news.length → ρ.rule.Rel (last + k) (last' + k))
    (position : ℕ) :
    List.Forall₂ (Rule.Same ρ) (allotRules accountId last position news).1
      (allotRules accountId' last' position news).1 := by
  induction news generalizing last last' position with
  | nil => exact .nil
  | cons new news ih =>
    rw [List.length_cons] at hids
    push_cast at hids
    refine .cons ⟨hids 1 (by omega) (by omega), haccount, by simp only⟩
      (ih (fun k hpos hle => ?_) (position + 1))
    have hnext := hids (1 + k) (by omega) (by omega)
    rwa [← Int.add_assoc, ← Int.add_assoc] at hnext

theorem allotUpstreams_same {ρ : Renamings} {accountId accountId' : Option ℤ}
    (haccount : Option.Rel ρ.account.Rel accountId accountId') (isPreset : Bool)
    {news : List NewUpstream} {last last' : ℤ}
    (hids : ∀ k : ℤ, 0 < k → k ≤ news.length → ρ.upstream.Rel (last + k) (last' + k)) :
    List.Forall₂ (Upstream.Same ρ) (allotUpstreams accountId isPreset last news).1
      (allotUpstreams accountId' isPreset last' news).1 := by
  induction news generalizing last last' with
  | nil => exact .nil
  | cons new news ih =>
    rw [List.length_cons] at hids
    push_cast at hids
    refine .cons ⟨hids 1 (by omega) (by omega), haccount, rfl⟩ (ih fun k hpos hle => ?_)
    have hnext := hids (1 + k) (by omega) (by omega)
    rwa [← Int.add_assoc, ← Int.add_assoc] at hnext

section

variable {a : Text} {ρ : Renamings} {s t : InMemControlPlane}

/-- The account reads the same up to ids. -/
theorem Agree.reads (h : s.Agree a ρ t) :
    List.Forall₂ (Rule.Same ρ) (s.rules a) (t.rules a) ∧
      List.Forall₂ (Upstream.Same ρ) (s.listUpstreams a) (t.listUpstreams a) ∧
        Option.Rel (Upstream.Same ρ) (s.activeUpstream a) (t.activeUpstream a) ∧
          Option.Rel (AccountPolicy.Same ρ) (s.snapshot.lookup a) (t.snapshot.lookup a) := by
  unfold InMemControlPlane.rules InMemControlPlane.listUpstreams InMemControlPlane.activeUpstream
    InMemControlPlane.snapshot
  rw [HashMap.lookup_mapVal, HashMap.lookup_mapVal]
  rcases optionRel_cases h.store with ⟨hs, ht⟩ | ⟨rec, rec', hs, ht, hsame⟩
  · rw [hs, ht]
    exact ⟨.nil, .nil, .none, .none⟩
  · rw [hs, ht]
    have hhead := forall₂_head? hsame.upstreams
    exact ⟨hsame.rules, hsame.upstreams, hhead, .some ⟨hsame.rules, hhead⟩⟩

/-- The two runs make sure of the account's record with the same effect up to its id. -/
theorem Agree.recordOf (h : s.Agree a ρ t) : ∃ account : Renaming ℤ ℤ, ρ.account ≤ account ∧
    account.Below (s.accountIdAfter a) (t.accountIdAfter a) ∧
      (s.recordOf a).Same { ρ with account } (t.recordOf a) := by
  unfold InMemControlPlane.recordOf accountIdAfter
  rcases optionRel_cases h.store with ⟨hs, ht⟩ | ⟨rec, rec', hs, ht, hsame⟩
  · rw [if_neg (Finmap.lookup_eq_none.mp hs), if_neg (Finmap.lookup_eq_none.mp ht), hs, ht]
    exact ⟨_, Renaming.le_extend h.accountIds 1, Renaming.extend_below h.accountIds 1,
      ⟨Renaming.extend_next h.accountIds 1 (by omega) (by omega), rfl⟩, .nil, .nil⟩
  · rw [if_pos (Finmap.mem_of_lookup_eq_some hs), if_pos (Finmap.mem_of_lookup_eq_some ht), hs, ht]
    exact ⟨ρ.account, le_rfl, h.accountIds, hsame⟩

/-- A write of the account in both runs. -/
theorem Agree.write (h : s.Agree a ρ t) {σ : Renamings} {rec rec' : AccountRecord}
    (hrec : rec.Same σ rec') {x x' y y' z z' : ℤ} (haccount : σ.account.Below x x')
    (hrule : σ.rule.Below y y') (hupstream : σ.upstream.Below z z') (hy : s.nextRuleId ≤ y)
    (hy' : t.nextRuleId ≤ y')
    (hnew : ∀ i j, σ.rule.Rel i j → ρ.rule.Rel i j ∨ s.nextRuleId < i ∧ t.nextRuleId < j) :
    Agree a σ
      { s with nextAccountId := x, nextRuleId := y, nextUpstreamId := z,
               accounts := s.accounts.insert a rec }
      { t with nextAccountId := x', nextRuleId := y', nextUpstreamId := z',
               accounts := t.accounts.insert a rec' } where
  store := by
    rw [Finmap.lookup_insert, Finmap.lookup_insert]
    exact .some hrec
  ruleIds := hrule
  upstreamIds := hupstream
  accountIds := haccount
  counters := by
    intro i j ws hij
    rcases hnew i j hij with hold | ⟨hi, hj⟩
    · exact h.counters i j ws hold
    · exact (h.unused i ws hi).trans (h.unused' j ws hj).symm
  unused := fun id ws hid => h.unused id ws (by dsimp only at hid; omega)
  unused' := fun id ws hid => h.unused' id ws (by dsimp only at hid; omega)

/-- A write of another account in the first run. -/
theorem Agree.write_other (h : s.Agree a ρ t) {n : Text} (hn : n ≠ a) (rec : AccountRecord)
    {x y z : ℤ} (hx : s.nextAccountId ≤ x) (hy : s.nextRuleId ≤ y) (hz : s.nextUpstreamId ≤ z) :
    Agree a ρ
      { s with nextAccountId := x, nextRuleId := y, nextUpstreamId := z,
               accounts := s.accounts.insert n rec } t where
  store := by
    rw [Finmap.lookup_insert_of_ne _ hn.symm]
    exact h.store
  ruleIds := h.ruleIds.mono hy le_rfl
  upstreamIds := h.upstreamIds.mono hz le_rfl
  accountIds := h.accountIds.mono hx le_rfl
  counters := h.counters
  unused := fun id ws hid => h.unused id ws (by dsimp only at hid; omega)
  unused' := h.unused'

theorem Agree.insert (h : s.Agree a ρ t) {i j : ℤ} (hij : ρ.rule.Rel i j) (ws count : ℤ) :
    Agree a ρ { s with quota := s.quota.insert (i, ws) count }
      { t with quota := t.quota.insert (j, ws) count } where
  __ := h
  counters := by
    intro i' j' ws' hij'
    rw [counter_insert, counter_insert, h.counters i' j' ws' hij']
    simp only [Prod.mk.injEq, ρ.rule.eq_iff hij' hij]
  unused := by
    intro id ws' hid
    have := (h.ruleIds i j hij).1
    rw [counter_insert, if_neg fun hkey => by cases hkey; dsimp only at hid; omega]
    exact h.unused id ws' hid
  unused' := by
    intro id ws' hid
    have := (h.ruleIds i j hij).2
    rw [counter_insert, if_neg fun hkey => by cases hkey; dsimp only at hid; omega]
    exact h.unused' id ws' hid

/-- A charge of a rule of another account. -/
theorem Agree.charge_other (h : s.Agree a ρ t) {id limitCount : ℤ} {window : Window} {now : ℤ}
    {r : CplResult Bool × InMemControlPlane} (hid : id ≤ s.nextRuleId)
    (hother : ∀ j, ¬ ρ.rule.Rel id j) (hrun : QuotaRun s id limitCount window now r) :
    r.2.Agree a ρ t := by
  obtain ⟨quota, hframe⟩ := hrun.frame
  have hcounter {id' : ℤ} (hne : id' ≠ id) (ws : ℤ) := hrun.counter_other hne ws
  rw [hframe] at hcounter ⊢
  refine { h with counters := fun i j ws hij => ?_, unused := fun id' ws hid' => ?_ }
  · rw [hcounter (fun heq => hother j (heq ▸ hij))]
    exact h.counters i j ws hij
  · dsimp only at hid'
    rw [hcounter (by omega)]
    exact h.unused id' ws hid'

/-- Charging rules that correspond has the same outcome. -/
theorem Agree.recordQuota (h : s.Agree a ρ t) {i j : ℤ} (hij : ρ.rule.Rel i j) (n : Text)
    (limitCount : ℤ) (window : Window) (now : ℤ) :
    (s.recordQuota n i limitCount window now).1 = (t.recordQuota n j limitCount window now).1 ∧
      Agree a ρ (s.recordQuota n i limitCount window now).2
        (t.recordQuota n j limitCount window now).2 := by
  unfold InMemControlPlane.recordQuota
  split_ifs with hle
  · exact ⟨rfl, h⟩
  · cases Quota.windowStart now window with
    | error e => exact ⟨rfl, h⟩
    | ok ws =>
      have hcount := h.counters i j ws hij
      unfold counter at hcount
      dsimp only
      rw [hcount]
      split_ifs
      · exact ⟨rfl, h.insert hij ws _⟩
      · exact ⟨rfl, h.insert hij ws _⟩

end

end InMemControlPlane

/-! ### Decisions and transports -/

theorem RuleEngine.firstMatch_same {ρ : Renamings} {rules rules' : List Rule}
    (h : List.Forall₂ (Rule.Same ρ) rules rules') (qname : Text) (inCategory : Text → Bool) :
    Option.Rel (Rule.Same ρ) (firstMatch qname inCategory rules)
      (firstMatch qname inCategory rules') := by
  induction h with
  | nil => exact .none
  | @cons rule rule' _ _ hsame _ ih =>
    have hmatch : (rule'.enabled && ruleMatches qname inCategory rule') =
        (rule.enabled && ruleMatches qname inCategory rule) := by
      rw [hsame.2.2]
      rfl
    unfold firstMatch at ih ⊢
    rw [List.find?_cons, List.find?_cons, hmatch]
    split
    · exact .some hsame
    · exact ih

theorem Pipeline.transportIn_same {ρ : Renamings} {cached cached' : Option AccountPolicy}
    (h : Option.Rel (AccountPolicy.Same ρ) cached cached') (fallback : Transport) :
    transportIn fallback cached = transportIn fallback cached' := by
  cases h with
  | none => rfl
  | @some policy policy' hsame =>
    unfold transportIn
    rw [Option.bind_some, Option.bind_some]
    rcases optionRel_cases hsame.upstream with ⟨hup, hup'⟩ | ⟨up, up', hup, hup', hups⟩
    · rw [hup, hup']
    · rw [hup, hup', hups.2.2]
      rfl

namespace Server

section

variable {fallback : Transport} {a : Text} {ρ : Renamings} {s t : Server}

/-! ### Writes -/

theorem Agree.write (h : s.Agree fallback a ρ t) {σ : Renamings} (hle : ρ ≤ σ)
    {rec rec' : AccountRecord} (hrec : rec.Same σ rec') {x x' y y' z z' : ℤ}
    (haccount : σ.account.Below x x') (hrule : σ.rule.Below y y')
    (hupstream : σ.upstream.Below z z') (hy : s.cp.nextRuleId ≤ y) (hy' : t.cp.nextRuleId ≤ y')
    (hnew : ∀ i j, σ.rule.Rel i j →
      ρ.rule.Rel i j ∨ s.cp.nextRuleId < i ∧ t.cp.nextRuleId < j) :
    Agree fallback a σ
      { s with cp := { s.cp with nextAccountId := x, nextRuleId := y, nextUpstreamId := z,
                                 accounts := s.cp.accounts.insert a rec } }
      { t with cp := { t.cp with nextAccountId := x', nextRuleId := y', nextUpstreamId := z',
                                 accounts := t.cp.accounts.insert a rec' } } where
  cp := h.cp.write hrec haccount hrule hupstream hy hy' hnew
  cache := optionRel_imp (fun _ _ => AccountPolicy.Same.mono hle) h.cache
  categories := h.categories
  upstreams := h.upstreams
  upstreams' := h.upstreams'
  others := by
    intro n r hn huses
    obtain ⟨hid, hother⟩ := h.others n r hn (by
      unfold Uses InMemControlPlane.rules at huses ⊢
      rwa [Finmap.lookup_insert_of_ne _ hn] at huses)
    refine ⟨hid.trans hy, fun j hj => ?_⟩
    rcases hnew _ j hj with hold | hnew
    · exact hother j hold
    · omega

theorem Agree.write_other (h : s.Agree fallback a ρ t) {n : Text} (hn : n ≠ a)
    (rec : AccountRecord) {x y z : ℤ} (hx : s.cp.nextAccountId ≤ x) (hy : s.cp.nextRuleId ≤ y)
    (hz : s.cp.nextUpstreamId ≤ z)
    (hrules : ∀ r ∈ rec.rules, r ∈ s.cp.rules n ∨ s.cp.nextRuleId < r.id ∧ r.id ≤ y) :
    Agree fallback a ρ
      { s with cp := { s.cp with nextAccountId := x, nextRuleId := y, nextUpstreamId := z,
                                 accounts := s.cp.accounts.insert n rec } } t where
  __ := h
  cp := h.cp.write_other hn rec hx hy hz
  others := by
    intro n' r hn' huses
    have hold (hr : s.Uses n' r) : r.id ≤ y ∧ ∀ j, ¬ ρ.rule.Rel r.id j :=
      (h.others n' r hn' hr).imp_left fun hid => hid.trans hy
    rcases huses with hr | hr
    · have hmem : r ∈ if n' = n then rec.rules else s.cp.rules n' :=
        s.cp.rules_insert n n' rec ▸ hr
      split_ifs at hmem with heq
      · subst heq
        rcases hrules r hmem with hmem | ⟨hlt, hle⟩
        · exact hold (.inl hmem)
        · refine ⟨hle, fun j hj => ?_⟩
          have := (h.cp.ruleIds _ j hj).1
          omega
      · exact hold (.inl hmem)
    · exact hold (.inr hr)

/-- The account's own writes extend the renamings by the ids they give out. -/
theorem Agree.createAccount (h : s.Agree fallback a ρ t) : ∃ σ, ρ ≤ σ ∧
    Agree fallback a σ { s with cp := (s.cp.createAccount a).2 }
        { t with cp := (t.cp.createAccount a).2 } ∧
      (s.cp.createAccount a).1.Same σ (t.cp.createAccount a).1 := by
  obtain ⟨account, haccount, hbelow, hrec⟩ := h.cp.recordOf
  have hσ : ρ ≤ { ρ with account } := ⟨le_rfl, le_rfl, haccount⟩
  simp only [InMemControlPlane.createAccount, getOrCreate_eq]
  exact ⟨_, hσ, h.write hσ hrec hbelow h.cp.ruleIds h.cp.upstreamIds le_rfl le_rfl
    fun _ _ => .inl, hrec.account⟩

theorem Agree.replaceRules (h : s.Agree fallback a ρ t) (news : List NewRule) : ∃ σ, ρ ≤ σ ∧
    Agree fallback a σ { s with cp := (s.cp.replaceRules a news).2 }
        { t with cp := (t.cp.replaceRules a news).2 } ∧
      List.Forall₂ (Rule.Same σ) (s.cp.newRules a news) (t.cp.newRules a news) := by
  obtain ⟨account, haccount, hbelow, hrec⟩ := h.cp.recordOf
  let σ : Renamings := ⟨ρ.rule.extend _ _ news.length h.cp.ruleIds, ρ.upstream, account⟩
  have hσ : ρ ≤ σ := ⟨Renaming.le_extend h.cp.ruleIds _, le_rfl, haccount⟩
  have hσ' : { ρ with account } ≤ σ := ⟨hσ.1, le_rfl, le_rfl⟩
  have hrec' := hrec.mono hσ'
  have hrules : List.Forall₂ (Rule.Same σ) (s.cp.newRules a news) (t.cp.newRules a news) :=
    allotRules_same hrec'.account.1 (fun _ => Renaming.extend_next h.cp.ruleIds _) 0
  have hnew : AccountRecord.Same σ { s.cp.recordOf a with rules := s.cp.newRules a news }
      { t.cp.recordOf a with rules := t.cp.newRules a news } := { hrec' with rules := hrules }
  simp only [replaceRules_eq]
  exact ⟨σ, hσ, h.write hσ hnew hbelow (Renaming.extend_below h.cp.ruleIds _) h.cp.upstreamIds
    (by omega) (by omega) fun _ _ => Renaming.rel_extend h.cp.ruleIds _, hrules⟩

theorem Agree.replaceUpstreams (h : s.Agree fallback a ρ t) (news : List NewUpstream) :
    ∃ σ, ρ ≤ σ ∧
      Agree fallback a σ { s with cp := (s.cp.replaceUpstreams a news).2 }
          { t with cp := (t.cp.replaceUpstreams a news).2 } ∧
        List.Forall₂ (Upstream.Same σ) (s.cp.newUpstreams a news) (t.cp.newUpstreams a news) := by
  obtain ⟨account, haccount, hbelow, hrec⟩ := h.cp.recordOf
  let σ : Renamings := ⟨ρ.rule, ρ.upstream.extend _ _ news.length h.cp.upstreamIds, account⟩
  have hσ : ρ ≤ σ := ⟨le_rfl, Renaming.le_extend h.cp.upstreamIds _, haccount⟩
  have hσ' : { ρ with account } ≤ σ := ⟨le_rfl, hσ.2.1, le_rfl⟩
  have hrec' := hrec.mono hσ'
  have hups : List.Forall₂ (Upstream.Same σ) (s.cp.newUpstreams a news)
      (t.cp.newUpstreams a news) :=
    allotUpstreams_same (.some hrec'.account.1) false
      fun _ => Renaming.extend_next h.cp.upstreamIds _
  have hnew : AccountRecord.Same σ { s.cp.recordOf a with upstreams := s.cp.newUpstreams a news }
      { t.cp.recordOf a with upstreams := t.cp.newUpstreams a news } :=
    { hrec' with upstreams := hups }
  simp only [replaceUpstreams_eq]
  exact ⟨σ, hσ, h.write hσ hnew hbelow h.cp.ruleIds (Renaming.extend_below h.cp.upstreamIds _)
    le_rfl le_rfl fun _ _ => .inl, hups⟩

/-! ### Queries -/

theorem Agree.decidingRule (h : s.Agree fallback a ρ t) (qname : Text) :
    Option.Rel (Rule.Same ρ) (s.decidingRule a qname) (t.decidingRule a qname) := by
  have hrules : List.Forall₂ (Rule.Same ρ) (cachedRules (s.cache.lookup a))
      (cachedRules (t.cache.lookup a)) := by
    have hcache := h.cache
    generalize s.cache.lookup a = cached at hcache ⊢
    generalize t.cache.lookup a = cached' at hcache ⊢
    cases hcache with
    | none => exact .nil
    | some hsame => exact hsame.rules
  unfold Server.decidingRule
  rw [h.categories]
  exact RuleEngine.firstMatch_same hrules qname _

theorem Agree.forward (h : s.Agree fallback a ρ t) (world : World) (outcome : Outcome)
    (raw : Bytes) :
    (forward world s (s.cache.lookup a) outcome raw).1 =
        (forward world t (t.cache.lookup a) outcome raw).1 ∧
      Agree fallback a ρ (forward world s (s.cache.lookup a) outcome raw).2
        (forward world t (t.cache.lookup a) outcome raw).2 := by
  rw [forward_answer h.upstreams, forward_answer h.upstreams', transportIn_same h.cache]
  exact ⟨rfl, { h with
    upstreams := transportFor_sound h.upstreams _
    upstreams' := transportFor_sound h.upstreams' _ }⟩

theorem Agree.charge (h : s.Agree fallback a ρ t) {rule rule' : Rule}
    (hrule : rule.Same ρ rule') (now : ℤ) :
    (s.charge a now rule).1 = (t.charge a now rule').1 ∧
      Agree fallback a ρ { s with cp := (s.charge a now rule).2 }
        { t with cp := (t.charge a now rule').2 } := by
  have hcharge : t.charge a now rule' = t.cp.recordQuota a rule'.id (rule.limitCount.getD 0)
      (rule.limitWindow.getD .Month) now := by
    rw [Server.charge, hrule.2.2]
  rw [hcharge]
  have hquota := h.cp.recordQuota hrule.1 a (rule.limitCount.getD 0)
    (rule.limitWindow.getD .Month) now
  refine ⟨hquota.1, { h with cp := hquota.2, others := ?_ }⟩
  obtain ⟨quota, hframe⟩ := (s.charge_run a now rule).frame
  rw [hframe]
  exact h.others

variable [Text.UnicodeTables]

/-- A query of the account has the same answer in both runs. -/
theorem Agree.handleQuery (h : s.Agree fallback a ρ t) (policy : BlockPolicy) (world : World)
    (raw : Bytes) :
    (handleQuery policy world s a raw).1 = (handleQuery policy world t a raw).1 ∧
      Agree fallback a ρ (handleQuery policy world s a raw).2
        (handleQuery policy world t a raw).2 := by
  unfold Pipeline.handleQuery handleInner
  cases queryName raw with
  | error e => exact ⟨rfl, h⟩
  | ok qname =>
    simp only [Server.decision_eq]
    have hrule := h.decidingRule qname
    generalize s.decidingRule a qname = found at hrule ⊢
    generalize t.decidingRule a qname = found' at hrule ⊢
    cases hrule with
    | none => exact h.forward world .Allow raw
    | @some rule rule' hsame =>
      have haction : rule'.action = rule.action := by rw [hsame.2.2]
      rw [Option.map_some, Option.map_some, RuleEngine.decisionOf, RuleEngine.decisionOf, haction]
      cases rule.action with
      | Allow => exact h.forward world .Allow raw
      | Deny => exact ⟨rfl, h⟩
      | Limit =>
        obtain ⟨hresult, hagree⟩ := h.charge hsame world.now
        unfold Server.charge at hresult hagree
        dsimp only
        generalize s.cp.recordQuota a rule.id _ _ _ = charged at hresult hagree ⊢
        generalize t.cp.recordQuota a rule'.id _ _ _ = charged' at hresult hagree ⊢
        obtain ⟨result, cp⟩ := charged
        obtain ⟨result', cp'⟩ := charged'
        cases hresult
        dsimp only at hagree ⊢
        split
        · exact hagree.forward world .LimitOk raw
        · exact ⟨rfl, hagree⟩
        · exact ⟨rfl, hagree⟩

/-- A query of another account keeps the agreement. -/
theorem Agree.query_other (h : s.Agree fallback a ρ t) {policy : BlockPolicy} {world : World}
    {n : Text} (hn : n ≠ a) {raw : Bytes} {r : Answer × Server}
    (hrun : QueryRun policy world s n raw r) : Agree fallback a ρ r.2 t := by
  have hcp : (∃ quota, r.2.cp = { s.cp with quota }) ∧ r.2.cp.Agree a ρ t.cp := by
    rcases hrun.cp with hsame | ⟨qname, rule, hrule, -, hcharge⟩
    · rw [hsame]
      exact ⟨⟨_, rfl⟩, h.cp⟩
    · obtain ⟨hid, hother⟩ := h.others n rule hn (.inr (RuleEngine.firstMatch_mem hrule))
      have hquota := s.charge_run n world.now rule
      rw [hcharge]
      exact ⟨hquota.frame, h.cp.charge_other hid hother hquota⟩
  obtain ⟨⟨quota, hframe⟩, hagree⟩ := hcp
  refine ⟨hagree, ?_, ?_, hrun.pool_sound h.upstreams, h.upstreams', ?_⟩
  · rw [hrun.cache]
    exact h.cache
  · rw [hrun.categories]
    exact h.categories
  · unfold Uses
    rw [hrun.cache, hframe]
    exact h.others

/-! ### Steps -/

/-- The steps that stay when the steps of the others are deleted. -/
def Own (a : Text) (i : Step) : Prop := i.account = none ∨ i.account = some a

instance (a : Text) : DecidablePred (Own a) := fun _ => inferInstanceAs (Decidable (_ ∨ _))

/-- A step of another account keeps the agreement. -/
theorem Agree.step_other (h : s.Agree fallback a ρ t) (policy : BlockPolicy) {i : Step}
    (hi : ¬ Own a i) : Agree fallback a ρ (s.step policy i).2 t := by
  have hne {n : Text} (haccount : i.account = some n) : n ≠ a := fun heq =>
    hi (.inr (heq ▸ haccount))
  cases i with
  | createAccount n =>
    simp only [step, InMemControlPlane.createAccount, getOrCreate_eq]
    exact h.write_other (hne rfl) _ (s.cp.le_accountIdAfter n) le_rfl le_rfl
      fun r hr => .inl (s.cp.recordOf_rules n ▸ hr)
  | replaceRules n news =>
    simp only [step, replaceRules_eq]
    exact h.write_other (hne rfl) _ (s.cp.le_accountIdAfter n) (by omega) le_rfl
      fun r hr => .inr (allotRules_ids r hr)
  | replaceUpstreams n news =>
    simp only [step, replaceUpstreams_eq]
    exact h.write_other (hne rfl) _ (s.cp.le_accountIdAfter n) le_rfl (by omega)
      fun r hr => .inl (s.cp.recordOf_rules n ▸ hr)
  | rules | listUpstreams | activeUpstream => exact h
  | refresh | replaceIndex => exact absurd (.inl rfl) hi
  | handleQuery world n raw =>
    exact h.query_other (hne rfl) (handleQuery_run policy world s n raw)

/-- A step that stays in both runs keeps the agreement and returns the same up to ids. -/
theorem Agree.step_own (h : s.Agree fallback a ρ t) (policy : BlockPolicy) {i : Step}
    (hi : Own a i) : ∃ σ, ρ ≤ σ ∧ Agree fallback a σ (s.step policy i).2 (t.step policy i).2 ∧
      (i.account = some a → Output.Same σ (s.step policy i).1 (t.step policy i).1) := by
  have hacc {n : Text} (haccount : i.account = some n) : n = a := by
    rcases hi with hi | hi
    · rw [haccount] at hi
      cases hi
    · exact Option.some.inj (haccount.symm.trans hi)
  cases i with
  | createAccount n =>
    obtain rfl := hacc rfl
    obtain ⟨σ, hσ, hagree, hsame⟩ := h.createAccount
    exact ⟨σ, hσ, hagree, fun _ => .account hsame⟩
  | replaceRules n news =>
    obtain rfl := hacc rfl
    obtain ⟨σ, hσ, hagree, hsame⟩ := h.replaceRules news
    refine ⟨σ, hσ, hagree, fun _ => ?_⟩
    simp only [step, replaceRules_eq]
    exact .rules hsame
  | replaceUpstreams n news =>
    obtain rfl := hacc rfl
    obtain ⟨σ, hσ, hagree, hsame⟩ := h.replaceUpstreams news
    refine ⟨σ, hσ, hagree, fun _ => ?_⟩
    simp only [step, replaceUpstreams_eq]
    exact .upstreams hsame
  | rules n =>
    obtain rfl := hacc rfl
    exact ⟨ρ, le_rfl, h, fun _ => .rules h.cp.reads.1⟩
  | listUpstreams n =>
    obtain rfl := hacc rfl
    exact ⟨ρ, le_rfl, h, fun _ => .upstreams h.cp.reads.2.1⟩
  | activeUpstream n =>
    obtain rfl := hacc rfl
    exact ⟨ρ, le_rfl, h, fun _ => .upstream h.cp.reads.2.2.1⟩
  | refresh failure =>
    refine ⟨ρ, le_rfl, ?_, fun haccount => by cases haccount⟩
    cases failure with
    | some e => exact h
    | none =>
      refine { h with cache := h.cp.reads.2.2.2, others := fun n r hn huses => ?_ }
      -- what a refresh caches is stored
      exact h.others n r hn (.inl (huses.elim id (cachedRules_snapshot s.cp n ▸ ·)))
  | replaceIndex map =>
    exact ⟨ρ, le_rfl, { h with categories := rfl }, fun haccount => by cases haccount⟩
  | handleQuery world n raw =>
    obtain rfl := hacc rfl
    obtain ⟨hanswer, hagree⟩ := h.handleQuery policy world raw
    refine ⟨ρ, le_rfl, hagree, fun _ => ?_⟩
    change Output.Same ρ (.answer (Pipeline.handleQuery policy world s n raw).1)
      (.answer (Pipeline.handleQuery policy world t n raw).1)
    rw [hanswer]
    exact .answer _

end

/-- Two fresh servers agree on every account. -/
theorem Agree.init (fallback : Transport) (a : Text) :
    Agree fallback a ⟨⊥, ⊥, ⊥⟩ (Server.init fallback) (Server.init fallback) where
  cp :=
    { store := by simp [Server.init, InMemControlPlane.default]
      ruleIds := Renaming.below_bot _ _
      upstreamIds := Renaming.below_bot _ _
      accountIds := Renaming.below_bot _ _
      counters := fun _ _ _ hij => hij.elim
      unused := fun id ws _ => by simp [Server.init, InMemControlPlane.default, counter]
      unused' := fun id ws _ => by simp [Server.init, InMemControlPlane.default, counter] }
  cache := by simp [Server.init]
  categories := rfl
  upstreams := UpstreamPool.sound_new fallback
  upstreams' := UpstreamPool.sound_new fallback
  others := by
    intro n rule _ huses
    simp [Uses, Server.init, InMemControlPlane.rules, InMemControlPlane.default, cachedRules]
      at huses

/-- Tenant isolation. Deleting the steps made for all other accounts from a run changes no answer
and no management result of an account, up to one renaming of rule, upstream and account ids. -/
theorem tenant_isolation [Text.UnicodeTables] (policy : BlockPolicy) (fallback : Transport)
    (a : Text) (is : List Step) :
    ∃ ρ : Renamings, List.Forall₂
      (fun x y => x.1 = y.1 ∧ (x.1.account = some a → Output.Same ρ x.2 y.2))
      (((machine policy).trace (init fallback) is).filter fun x => Own a x.1)
      ((machine policy).trace (init fallback) (is.filter fun i => Own a i)) := by
  obtain ⟨ρ, -, -, htrace⟩ := (machine policy).unwinding (Own a) (Agree fallback a)
    (fun ρ i o o' => i.account = some a → Output.Same ρ o o')
    (fun _ _ _ _ _ hle hsame hi => (hsame hi).mono hle)
    (fun _ _ _ _ hi h => h.step_other policy hi)
    (fun _ _ _ _ hi h => h.step_own policy hi) is _ _ _ (Agree.init fallback a)
  exact ⟨ρ, htrace⟩

end Server

end Brdns
