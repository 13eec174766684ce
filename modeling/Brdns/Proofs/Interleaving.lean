import Brdns.Lib.Renaming
import Brdns.Proofs.Management
import Brdns.Spec.CriticalSections

/-! Concurrent calls of the in-memory control plane, interleaved at the critical sections. What
the calls returned so far determines the store, whatever ran in the gap of a replace call. -/

namespace Brdns

open Lib

/-! ### What the calls returned -/

def Rule.submitted (self : Rule) : NewRule :=
  ⟨self.action, self.targetType, self.targetValue, self.limitCount, self.limitWindow, self.enabled⟩

def Upstream.submitted (self : Upstream) : NewUpstream :=
  ⟨self.name, self.protocol, self.host, self.port, self.addr⟩

namespace Returned

def newRules : Returned → List Rule
  | replacedRules _ _ (.ok out) => out
  | _ => []

def newUpstreams : Returned → List Upstream
  | replacedUpstreams _ _ (.ok out) => out
  | _ => []

def rulesFor (n : Text) : Returned → Option (List Rule)
  | replacedRules n' _ (.ok out) => if n' = n then some out else none
  | _ => none

def upstreamsFor (n : Text) : Returned → Option (List Upstream)
  | replacedUpstreams n' _ (.ok out) => if n' = n then some out else none
  | _ => none

/-- A replace call succeeds and returns what was submitted, in order. -/
def Faithful : Returned → Prop
  | replacedRules _ news result => ∃ out, result = .ok out ∧ out.map Rule.submitted = news
  | replacedUpstreams _ news result =>
    ∃ out, result = .ok out ∧ out.map Upstream.submitted = news
  | _ => True

def Unlisted : Returned → Prop
  | replacedRules .. | replacedUpstreams .. => False
  | _ => True

theorem Unlisted.shows_nothing {o : Returned} (h : o.Unlisted) :
    o.Faithful ∧ o.newRules = [] ∧ o.newUpstreams = [] ∧
      ∀ n, o.rulesFor n = none ∧ o.upstreamsFor n = none := by
  cases o with
  | replacedRules | replacedUpstreams => cases h
  | _ => exact ⟨trivial, rfl, rfl, fun _ => ⟨rfl, rfl⟩⟩

end Returned

def ruleIds (t : List (Section × Returned)) : List ℤ :=
  t.flatMap fun x => x.2.newRules.map Rule.id

def upstreamIds (t : List (Section × Returned)) : List ℤ :=
  t.flatMap fun x => x.2.newUpstreams.map Upstream.id

theorem ruleIds_concat (t : List (Section × Returned)) (i : Section) (o : Returned) :
    ruleIds (t ++ [(i, o)]) = ruleIds t ++ o.newRules.map Rule.id := by
  simp [ruleIds]

theorem upstreamIds_concat (t : List (Section × Returned)) (i : Section) (o : Returned) :
    upstreamIds (t ++ [(i, o)]) = upstreamIds t ++ o.newUpstreams.map Upstream.id := by
  simp [upstreamIds]

/-! ### Lists as they are allotted -/

namespace InMemControlPlane

def Placed (accountId : ℤ) (rules : List Rule) : Prop :=
  ∀ i rule, rules[i]? = some rule → rule.accountId = accountId ∧ rule.position = asI32 i

theorem allotRules_get (accountId : ℤ) {news : List NewRule} {nextId : ℤ} {position i : ℕ}
    {rule : Rule} (h : (allotRules accountId nextId position news).1[i]? = some rule) :
    rule.accountId = accountId ∧ rule.position = asI32 (position + i) := by
  induction news generalizing nextId position i with
  | nil => simp [allotRules] at h
  | cons new news ih =>
    cases i with
    | zero =>
      simp only [allotRules, List.getElem?_cons_zero, Option.some.injEq] at h
      subst h
      exact ⟨rfl, by rw [Nat.add_zero]⟩
    | succ i =>
      simp only [allotRules, List.getElem?_cons_succ] at h
      have hi : position + (i + 1) = position + 1 + i := by omega
      rw [hi]
      exact ih h

theorem allotRules_placed (accountId nextId : ℤ) (news : List NewRule) :
    Placed accountId (allotRules accountId nextId 0 news).1 := by
  intro i rule h
  have hget := allotRules_get accountId h
  rwa [Nat.zero_add] at hget

theorem allotRules_submitted (accountId nextId : ℤ) (position : ℕ) (news : List NewRule) :
    (allotRules accountId nextId position news).1.map Rule.submitted = news := by
  induction news generalizing nextId position with
  | nil => rfl
  | cons new news ih =>
    simp only [allotRules, List.map_cons, ih]
    rfl

theorem allotUpstreams_submitted (accountId : Option ℤ) (isPreset : Bool) (nextId : ℤ)
    (news : List NewUpstream) :
    (allotUpstreams accountId isPreset nextId news).1.map Upstream.submitted = news := by
  induction news generalizing nextId with
  | nil => rfl
  | cons new news ih =>
    simp only [allotUpstreams, List.map_cons, ih]
    rfl

theorem allotUpstreams_map_id (accountId : Option ℤ) (isPreset : Bool) (nextId : ℤ)
    (news : List NewUpstream) : (allotUpstreams accountId isPreset nextId news).1.map Upstream.id =
      idsAfter nextId news.length := by
  induction news generalizing nextId with
  | nil => rfl
  | cons new news ih => simp only [allotUpstreams, List.map_cons, ih, List.length_cons, idsAfter]

/-! ### Critical sections -/

section

variable (self : InMemControlPlane) (n : Text)

theorem getAccount_insert (n' : Text) (rec : AccountRecord) :
    ({ self with accounts := self.accounts.insert n rec } : InMemControlPlane).getAccount n' =
      if n' = n then some rec.account else self.getAccount n' := by
  unfold getAccount
  rw [HashMap.lookup_insert]
  split_ifs <;> rfl

theorem listUpstreams_insert (n' : Text) (rec : AccountRecord) :
    ({ self with accounts := self.accounts.insert n rec } : InMemControlPlane).listUpstreams n' =
      if n' = n then rec.upstreams else self.listUpstreams n' := by
  unfold listUpstreams
  rw [HashMap.lookup_insert]
  split_ifs <;> rfl

theorem recordOf_upstreams : (self.recordOf n).upstreams = self.listUpstreams n := by
  unfold recordOf listUpstreams
  cases self.accounts.lookup n <;> rfl

theorem recordOf_account :
    (self.recordOf n).account = (self.getAccount n).getD ⟨self.nextAccountId + 1, n⟩ := by
  unfold recordOf getAccount
  cases self.accounts.lookup n <;> rfl

theorem getAccount_getOrCreate (n' : Text) :
    (self.getOrCreate n).2.getAccount n' =
      if n' = n then some (self.getOrCreate n).1 else self.getAccount n' := by
  rw [getOrCreate_eq]
  exact self.getAccount_insert n n' _

theorem getOrCreate_fst :
    (self.getOrCreate n).1 = (self.getAccount n).getD ⟨self.nextAccountId + 1, n⟩ := by
  rw [getOrCreate_eq]
  exact self.recordOf_account n

theorem nextAccountId_getOrCreate : (self.getOrCreate n).2.nextAccountId =
    if (self.getAccount n).isSome then self.nextAccountId else self.nextAccountId + 1 := by
  unfold getOrCreate getAccount
  cases self.accounts.lookup n <;> rfl

theorem getOrCreate_frame : (self.getOrCreate n).2.nextRuleId = self.nextRuleId ∧
    (self.getOrCreate n).2.nextUpstreamId = self.nextUpstreamId ∧
    (self.getOrCreate n).2.presets = self.presets := by
  rw [getOrCreate_eq]
  exact ⟨rfl, rfl, rfl⟩

theorem rules_of_no_account {self : InMemControlPlane} {n : Text}
    (h : self.getAccount n = none) : self.rules n = [] := by
  unfold getAccount at h
  unfold rules
  rw [Option.map_eq_none_iff.mp h]
  rfl

theorem listUpstreams_getOrCreate (n' : Text) :
    (self.getOrCreate n).2.listUpstreams n' = self.listUpstreams n' := by
  rw [getOrCreate_eq]
  refine (self.listUpstreams_insert n n' _).trans ?_
  split_ifs with hn
  · rw [recordOf_upstreams, hn]
  · rfl

variable {self n}

def withRules (self : InMemControlPlane) (n : Text) (out : List Rule) (last : ℤ) :
    InMemControlPlane :=
  { self with
    nextRuleId := last
    accounts := self.accounts.insert n { self.recordOf n with rules := out } }

def withUpstreams (self : InMemControlPlane) (n : Text) (out : List Upstream) (last : ℤ) :
    InMemControlPlane :=
  { self with
    nextUpstreamId := last
    accounts := self.accounts.insert n { self.recordOf n with upstreams := out } }

theorem views_withRules (self : InMemControlPlane) (n n' : Text) (out : List Rule) (last : ℤ) :
    (self.withRules n out last).rules n' = (if n' = n then out else self.rules n') ∧
      (self.withRules n out last).listUpstreams n' = self.listUpstreams n' := by
  refine ⟨self.rules_insert n n' _, (self.listUpstreams_insert n n' _).trans ?_⟩
  split_ifs with heq
  · rw [heq]
    exact self.recordOf_upstreams n
  · rfl

theorem views_withUpstreams (self : InMemControlPlane) (n n' : Text) (out : List Upstream)
    (last : ℤ) : (self.withUpstreams n out last).rules n' = self.rules n' ∧
      (self.withUpstreams n out last).listUpstreams n' =
        if n' = n then out else self.listUpstreams n' := by
  refine ⟨(self.rules_insert n n' _).trans ?_, self.listUpstreams_insert n n' _⟩
  split_ifs with heq
  · rw [heq]
    exact self.recordOf_rules n
  · rfl

/-- The account is there when the second section of a call looks for it. -/
theorem storeRules_eq {account : Account} (h : self.getAccount n = some account)
    (news : List NewRule) : self.storeRules account n news =
      (.ok (allotRules account.id self.nextRuleId 0 news).1,
        self.withRules n (allotRules account.id self.nextRuleId 0 news).1
          (self.nextRuleId + news.length)) := by
  unfold getAccount at h
  unfold storeRules withRules recordOf
  cases hrec : self.accounts.lookup n with
  | none => rw [hrec] at h; cases h
  | some rec => simp only [allotRules_last, hrec, Option.getD_some]

theorem storeUpstreams_eq {account : Account} (h : self.getAccount n = some account)
    (news : List NewUpstream) : self.storeUpstreams account n news =
      (.ok (allotUpstreams (some account.id) false self.nextUpstreamId news).1,
        self.withUpstreams n (allotUpstreams (some account.id) false self.nextUpstreamId news).1
          (self.nextUpstreamId + news.length)) := by
  unfold getAccount at h
  unfold storeUpstreams withUpstreams recordOf
  cases hrec : self.accounts.lookup n with
  | none => rw [hrec] at h; cases h
  | some rec => simp only [allotUpstreams_last, hrec, Option.getD_some]

/-- A new list under an account that is there leaves the accounts as they are. -/
theorem getAccount_relisted {account : Account} (h : self.getAccount n = some account)
    {rec : AccountRecord} (hrec : rec.account = (self.recordOf n).account) (n' : Text) :
    ({ self with accounts := self.accounts.insert n rec } : InMemControlPlane).getAccount n' =
      self.getAccount n' := by
  rw [getAccount_insert]
  split_ifs with heq
  · rw [heq, hrec, recordOf_account, h, Option.getD_some]
  · rfl

theorem getAccount_withRules {account : Account} (h : self.getAccount n = some account)
    (out : List Rule) (last : ℤ) (n' : Text) :
    (self.withRules n out last).getAccount n' = self.getAccount n' :=
  getAccount_relisted h (rfl : { self.recordOf n with rules := out }.account = _) n'

theorem getAccount_withUpstreams {account : Account} (h : self.getAccount n = some account)
    (out : List Upstream) (last : ℤ) (n' : Text) :
    (self.withUpstreams n out last).getAccount n' = self.getAccount n' :=
  getAccount_relisted h (rfl : { self.recordOf n with upstreams := out }.account = _) n'

end

end InMemControlPlane

/-! ### The accounts -/

structure InMemControlPlane.Directory (cp : InMemControlPlane) : Prop where
  number : ∀ n account, cp.getAccount n = some account →
    account.accountNumber = n ∧ account.id ≤ cp.nextAccountId
  distinct : ∀ n n' account account', cp.getAccount n = some account →
    cp.getAccount n' = some account' → account.id = account'.id → n = n'

namespace InMemControlPlane

/-- An account that exists stays what it is. -/
theorem getOrCreate_stays {cp : InMemControlPlane} {n' : Text} {account : Account}
    (hn' : cp.getAccount n' = some account) (n : Text) :
    (cp.getOrCreate n).2.getAccount n' = some account := by
  rw [getAccount_getOrCreate]
  split_ifs with heq
  · subst heq
    rw [getOrCreate_fst, hn', Option.getD_some]
  · exact hn'

namespace Directory

variable {cp cp' : InMemControlPlane} (h : cp.Directory)

include h

theorem congr (hget : ∀ n, cp'.getAccount n = cp.getAccount n)
    (hnext : cp'.nextAccountId = cp.nextAccountId) : cp'.Directory where
  number n account hn := hnext ▸ h.number n account (hget n ▸ hn)
  distinct n n' account account' hn hn' :=
    h.distinct n n' account account' (hget n ▸ hn) (hget n' ▸ hn')

theorem getOrCreate (n : Text) : (cp.getOrCreate n).2.Directory := by
  have hget := cp.getAccount_getOrCreate n
  cases hn : cp.getAccount n with
  | some account =>
    rw [getOrCreate_fst, hn, Option.getD_some] at hget
    refine h.congr (fun n' => ?_) ?_
    · rw [hget n']
      split_ifs with heq
      · rw [heq, hn]
      · rfl
    · rw [nextAccountId_getOrCreate, hn]
      rfl
  | none =>
    rw [getOrCreate_fst, hn, Option.getD_none] at hget
    have hnext : (cp.getOrCreate n).2.nextAccountId = cp.nextAccountId + 1 := by
      rw [nextAccountId_getOrCreate, hn]
      rfl
    constructor
    · intro n' account hn'
      rw [hget] at hn'
      split_ifs at hn' with heq
      · cases hn'
        exact ⟨heq.symm, hnext.ge⟩
      · have hold := h.number n' account hn'
        exact ⟨hold.1, by omega⟩
    · intro n₁ n₂ account₁ account₂ h₁ h₂ hid
      rw [hget] at h₁ h₂
      split_ifs at h₁ h₂ with heq₁ heq₂ heq₂
      · rw [heq₁, heq₂]
      · cases h₁
        have hold := (h.number n₂ account₂ h₂).2
        dsimp only at hid
        omega
      · cases h₂
        have hold := (h.number n₁ account₁ h₁).2
        dsimp only at hid
        omega
      · exact h.distinct n₁ n₂ account₁ account₂ h₁ h₂ hid

end Directory

end InMemControlPlane

/-! ### The invariant -/

open InMemControlPlane Machine

/-- What the calls returned so far and the store have in common. -/
structure Coherent (t : List (Section × Returned)) (s : Shared) : Prop where
  faithful : ∀ x ∈ t, x.2.Faithful
  directory : s.cp.Directory
  obtained : ∀ x ∈ t, ∀ n account, x.2 = .account n account → s.cp.getAccount n = some account
  waiting : ∀ call ∈ s.waiting, s.cp.getAccount call.accountNumber = some call.account
  ruleIds : (ruleIds t).Nodup ∧ ∀ id ∈ ruleIds t, id ≤ s.cp.nextRuleId
  upstreamIds : (s.cp.presets.map Upstream.id ++ upstreamIds t).Nodup ∧
    ∀ id ∈ s.cp.presets.map Upstream.id ++ upstreamIds t, id ≤ s.cp.nextUpstreamId
  placed : ∀ n account, s.cp.getAccount n = some account → Placed account.id (s.cp.rules n)
  rules : ∀ n, s.cp.rules n = (latest (Returned.rulesFor n) t).getD []
  upstreams : ∀ n, s.cp.listUpstreams n = (latest (Returned.upstreamsFor n) t).getD []

theorem coherent_init : Coherent [] Shared.init where
  faithful := by simp
  directory := by
    constructor <;> simp [Shared.init, InMemControlPlane.default, getAccount]
  obtained := by simp
  waiting := by simp [Shared.init]
  ruleIds := by simp [Brdns.ruleIds]
  upstreamIds := by decide
  placed n account h := by simp [Shared.init, InMemControlPlane.default, getAccount] at h
  rules n := by simp [Shared.init, InMemControlPlane.default, InMemControlPlane.rules, latest]
  upstreams n := by simp [Shared.init, InMemControlPlane.default, listUpstreams, latest]

namespace Coherent

variable {t : List (Section × Returned)} {s : Shared} (h : Coherent t s) (i : Section)

include h

/-- A section that leaves the accounts alone. -/
theorem accounts_kept (o : Returned) (ho : ∀ n account, o ≠ .account n account) (s' : Shared)
    (hget : ∀ n, s'.cp.getAccount n = s.cp.getAccount n)
    (hnext : s'.cp.nextAccountId = s.cp.nextAccountId) (hwaiting : s'.waiting ⊆ s.waiting) :
    s'.cp.Directory ∧
      (∀ x ∈ t ++ [(i, o)], ∀ n account, x.2 = .account n account →
        s'.cp.getAccount n = some account) ∧
      ∀ call ∈ s'.waiting, s'.cp.getAccount call.accountNumber = some call.account := by
  refine ⟨h.directory.congr hget hnext, ?_, fun call hcall => ?_⟩
  · refine List.forall_mem_append.mpr ⟨fun x hx n account hx' => ?_,
      List.forall_mem_singleton.mpr fun n account heq => absurd heq (ho n account)⟩
    exact (hget n).trans (h.obtained x hx n account hx')
  · exact (hget _).trans (h.waiting call (hwaiting hcall))

/-- A section that replaces no list, with what is left to show of it. -/
theorem unlisted {o : Returned} (ho : o.Unlisted) {s' : Shared}
    (hframe : s'.cp.nextRuleId = s.cp.nextRuleId ∧
      s'.cp.nextUpstreamId = s.cp.nextUpstreamId ∧ s'.cp.presets = s.cp.presets)
    (hrules : ∀ n, s'.cp.rules n = s.cp.rules n)
    (hupstreams : ∀ n, s'.cp.listUpstreams n = s.cp.listUpstreams n)
    (hdirectory : s'.cp.Directory)
    (hobtained : ∀ x ∈ t ++ [(i, o)], ∀ n account, x.2 = .account n account →
      s'.cp.getAccount n = some account)
    (hwaiting : ∀ call ∈ s'.waiting, s'.cp.getAccount call.accountNumber = some call.account)
    (hplaced : ∀ n account, s'.cp.getAccount n = some account →
      Placed account.id (s.cp.rules n)) : Coherent (t ++ [(i, o)]) s' := by
  obtain ⟨hfaithful, hnewRules, hnewUpstreams, hfor⟩ := ho.shows_nothing
  obtain ⟨hruleId, hupstreamId, hpresets⟩ := hframe
  refine
    { directory := hdirectory, obtained := hobtained, waiting := hwaiting, faithful := ?_
      ruleIds := ?_, upstreamIds := ?_, placed := ?_, rules := ?_, upstreams := ?_ }
  · exact List.forall_mem_append.mpr ⟨h.faithful, List.forall_mem_singleton.mpr hfaithful⟩
  · rw [ruleIds_concat, hnewRules, List.map_nil, List.append_nil, hruleId]
    exact h.ruleIds
  · rw [upstreamIds_concat, hnewUpstreams, List.map_nil, List.append_nil, hupstreamId, hpresets]
    exact h.upstreamIds
  · intro n account hn
    rw [hrules]
    exact hplaced n account hn
  · intro n
    rw [latest_concat, (hfor n).1, Option.none_or, hrules]
    exact h.rules n
  · intro n
    rw [latest_concat, (hfor n).2, Option.none_or, hupstreams]
    exact h.upstreams n

/-- A section that changes at most counters. -/
theorem quiet (o : Returned) (ho : o.Unlisted) (haccount : ∀ n account, o ≠ .account n account)
    (quota : HashMap (ℤ × ℤ) ℤ) :
    Coherent (t ++ [(i, o)]) { s with cp := { s.cp with quota } } := by
  have hkept := h.accounts_kept i o haccount { s with cp := { s.cp with quota } }
    (fun _ => rfl) rfl (List.Subset.refl _)
  exact h.unlisted i ho ⟨rfl, rfl, rfl⟩ (fun _ => rfl) (fun _ => rfl) hkept.1 hkept.2.1 hkept.2.2
    h.placed

/-- A section that makes sure of an account; the call may go on to wait. -/
theorem obtain_account (n : Text) {waiting : List Call}
    (hwaiting : ∀ call ∈ waiting, call ∈ s.waiting ∨
      call.accountNumber = n ∧ call.account = (s.cp.getOrCreate n).1) :
    Coherent (t ++ [(i, .account n (s.cp.getOrCreate n).1)])
      ⟨(s.cp.getOrCreate n).2, waiting⟩ := by
  have hget := s.cp.getAccount_getOrCreate n
  have hunlisted : (Returned.account n (s.cp.getOrCreate n).1).Unlisted := trivial
  refine h.unlisted i hunlisted (s.cp.getOrCreate_frame n) (s.cp.rules_createAccount n)
    (s.cp.listUpstreams_getOrCreate n) (h.directory.getOrCreate n) ?_ ?_ ?_
  · refine List.forall_mem_append.mpr ⟨fun x hx n' account hx' => ?_,
      List.forall_mem_singleton.mpr fun n' account hnew => ?_⟩
    · exact getOrCreate_stays (h.obtained x hx n' account hx') n
    · cases hnew
      rw [hget, if_pos rfl]
  · intro call hcall
    rcases hwaiting call hcall with hold | ⟨hn, haccount⟩
    · exact getOrCreate_stays (h.waiting call hold) n
    · rw [hget, if_pos hn, haccount]
  · intro n' account hn'
    cases hold : s.cp.getAccount n' with
    | some account' =>
      have hsame : account' = account :=
        Option.some.inj ((getOrCreate_stays hold n).symm.trans hn')
      exact hsame ▸ h.placed n' account' hold
    | none =>
      intro k rule hrule
      rw [rules_of_no_account hold] at hrule
      cases hrule

/-- The first section of a replace call. -/
theorem begin_call (n : Text) {call : Call} (hnumber : call.accountNumber = n)
    (haccount : call.account = (s.cp.getOrCreate n).1) :
    Coherent (t ++ [(i, .account n (s.cp.getOrCreate n).1)])
      ⟨(s.cp.getOrCreate n).2, s.waiting ++ [call]⟩ := by
  apply h.obtain_account
  intro call' hcall
  rcases List.mem_append.mp hcall with hold | hnew
  · exact .inl hold
  · rw [List.mem_singleton.mp hnew]
    exact .inr ⟨hnumber, haccount⟩

/-- The second section of `replace_rules`. -/
theorem store_rules {n : Text} {account : Account} (hn : s.cp.getAccount n = some account)
    (news : List NewRule) {waiting : List Call} (hwaiting : waiting ⊆ s.waiting) :
    Coherent (t ++ [(i, .replacedRules n news (s.cp.storeRules account n news).1)])
      ⟨(s.cp.storeRules account n news).2, waiting⟩ := by
  rw [storeRules_eq hn]
  have hplaced := allotRules_placed account.id s.cp.nextRuleId news
  have hsubmitted := allotRules_submitted account.id s.cp.nextRuleId 0 news
  have hids := allotRules_map_id account.id s.cp.nextRuleId 0 news
  generalize (allotRules account.id s.cp.nextRuleId 0 news).1 = out at *
  have hget := getAccount_withRules hn out (s.cp.nextRuleId + news.length)
  have hviews (n' : Text) := s.cp.views_withRules n n' out (s.cp.nextRuleId + news.length)
  obtain ⟨hdirectory, hobtained, hwaiting'⟩ := h.accounts_kept i (.replacedRules n news (.ok out))
    nofun ⟨s.cp.withRules n out (s.cp.nextRuleId + news.length), waiting⟩ hget rfl hwaiting
  refine
    { directory := hdirectory, obtained := hobtained, waiting := hwaiting', faithful := ?_
      ruleIds := ?_, upstreamIds := ?_, placed := ?_, rules := ?_, upstreams := ?_ }
  · exact List.forall_mem_append.mpr ⟨h.faithful,
      List.forall_mem_singleton.mpr ⟨out, rfl, hsubmitted⟩⟩
  · rw [ruleIds_concat, Returned.newRules, hids]
    exact nodup_append_idsAfter h.ruleIds.1 h.ruleIds.2 news.length
  · rw [upstreamIds_concat]
    simpa [Returned.newUpstreams, withRules] using h.upstreamIds
  · intro n' account' hn'
    have hold : s.cp.getAccount n' = some account' := (hget n').symm.trans hn'
    rw [(hviews n').1]
    split_ifs with heq
    · subst heq
      have hsame : account = account' := Option.some.inj (hn.symm.trans hold)
      exact hsame ▸ hplaced
    · exact h.placed n' account' hold
  · intro n'
    rw [latest_concat, (hviews n').1, Returned.rulesFor]
    split_ifs with heq heq' heq'
    · rfl
    · exact absurd heq.symm heq'
    · exact absurd heq'.symm heq
    · exact h.rules n'
  · intro n'
    rw [latest_concat, (hviews n').2]
    exact h.upstreams n'

/-- The second section of `replace_upstreams`. -/
theorem store_upstreams {n : Text} {account : Account} (hn : s.cp.getAccount n = some account)
    (news : List NewUpstream) {waiting : List Call} (hwaiting : waiting ⊆ s.waiting) :
    Coherent (t ++ [(i, .replacedUpstreams n news (s.cp.storeUpstreams account n news).1)])
      ⟨(s.cp.storeUpstreams account n news).2, waiting⟩ := by
  rw [storeUpstreams_eq hn]
  have hsubmitted := allotUpstreams_submitted (some account.id) false s.cp.nextUpstreamId news
  have hids := allotUpstreams_map_id (some account.id) false s.cp.nextUpstreamId news
  generalize (allotUpstreams (some account.id) false s.cp.nextUpstreamId news).1 = out at *
  have hget := getAccount_withUpstreams hn out (s.cp.nextUpstreamId + news.length)
  have hviews (n' : Text) := s.cp.views_withUpstreams n n' out (s.cp.nextUpstreamId + news.length)
  obtain ⟨hdirectory, hobtained, hwaiting'⟩ :=
    h.accounts_kept i (.replacedUpstreams n news (.ok out)) nofun
      ⟨s.cp.withUpstreams n out (s.cp.nextUpstreamId + news.length), waiting⟩ hget rfl hwaiting
  refine
    { directory := hdirectory, obtained := hobtained, waiting := hwaiting', faithful := ?_
      ruleIds := ?_, upstreamIds := ?_, placed := ?_, rules := ?_, upstreams := ?_ }
  · exact List.forall_mem_append.mpr ⟨h.faithful,
      List.forall_mem_singleton.mpr ⟨out, rfl, hsubmitted⟩⟩
  · rw [ruleIds_concat]
    simpa [Returned.newRules, withUpstreams] using h.ruleIds
  · rw [upstreamIds_concat, Returned.newUpstreams, hids, ← List.append_assoc]
    exact nodup_append_idsAfter h.upstreamIds.1 h.upstreamIds.2 news.length
  · intro n' account' hn'
    rw [(hviews n').1]
    exact h.placed n' account' ((hget n').symm.trans hn')
  · intro n'
    rw [latest_concat, (hviews n').1]
    exact h.rules n'
  · intro n'
    rw [latest_concat, (hviews n').2, Returned.upstreamsFor]
    split_ifs with heq heq' heq'
    · rfl
    · exact absurd heq.symm heq'
    · exact absurd heq'.symm heq
    · exact h.upstreams n'

theorem step : Coherent (t ++ [(i, (s.step i).1)]) (s.step i).2 := by
  cases i with
  | createAccount n => exact h.obtain_account _ n fun call hcall => .inl hcall
  | beginReplaceRules n news => exact h.begin_call _ n rfl rfl
  | beginReplaceUpstreams n news => exact h.begin_call _ n rfl rfl
  | finish index =>
    have hsub : s.waiting.eraseIdx index ⊆ s.waiting := (List.eraseIdx_sublist _ _).subset
    cases hcall : s.waiting[index]? with
    | none =>
      simp only [Shared.step, hcall]
      exact h.quiet _ .nothing trivial nofun s.cp.quota
    | some call =>
      have hwaits := h.waiting call (List.mem_of_getElem? hcall)
      cases call with
      | replaceRules account n news =>
        simp only [Shared.step, hcall]
        exact h.store_rules _ hwaits news hsub
      | replaceUpstreams account n news =>
        simp only [Shared.step, hcall]
        exact h.store_upstreams _ hwaits news hsub
  | recordQuota n ruleId limitCount window now =>
    obtain ⟨quota, hframe⟩ := (s.cp.recordQuota_run n ruleId limitCount window now).frame
    unfold Shared.step
    dsimp only
    rw [hframe]
    exact h.quiet _ (.recorded _) trivial nofun quota
  | getAccount n => exact h.quiet _ (.found (s.cp.getAccount n)) trivial nofun s.cp.quota
  | rules n => exact h.quiet _ (.rules (s.cp.rules n)) trivial nofun s.cp.quota
  | listUpstreams n => exact h.quiet _ (.upstreams (s.cp.listUpstreams n)) trivial nofun s.cp.quota
  | activeUpstream n => exact h.quiet _ (.upstream (s.cp.activeUpstream n)) trivial nofun s.cp.quota
  | presetUpstreams => exact h.quiet _ (.upstreams s.cp.presetUpstreams) trivial nofun s.cp.quota
  | snapshot => exact h.quiet _ (.policies s.cp.snapshot) trivial nofun s.cp.quota

end Coherent

theorem coherent (is : List Section) :
    Coherent (Shared.machine.trace Shared.init is) (Shared.machine.exec Shared.init is) :=
  Shared.machine.trace_invariant Coherent Shared.init coherent_init
    (fun _ _ i h => h.step i) is

/-- However the critical sections of any number of calls interleave: no replace call misses its
account, ids stay distinct, and the store holds what the last replace call for each account
returned. -/
theorem interleaved_store (is : List Section) :
    (∀ x ∈ Shared.machine.trace Shared.init is, x.2.Faithful) ∧
    (∀ x ∈ Shared.machine.trace Shared.init is, ∀ y ∈ Shared.machine.trace Shared.init is,
      ∀ n n' account account', x.2 = .account n account → y.2 = .account n' account' →
        (n = n' → account = account') ∧ (n ≠ n' → account.id ≠ account'.id)) ∧
    (ruleIds (Shared.machine.trace Shared.init is)).Nodup ∧
    ((Shared.machine.exec Shared.init is).cp.presets.map Upstream.id ++
      upstreamIds (Shared.machine.trace Shared.init is)).Nodup ∧
    (∀ n rec, (Shared.machine.exec Shared.init is).cp.accounts.lookup n = some rec →
      rec.account.accountNumber = n ∧ Placed rec.account.id rec.rules) ∧
    ∀ n, (Shared.machine.exec Shared.init is).cp.rules n =
        (latest (Returned.rulesFor n) (Shared.machine.trace Shared.init is)).getD [] ∧
      (Shared.machine.exec Shared.init is).cp.listUpstreams n =
        (latest (Returned.upstreamsFor n) (Shared.machine.trace Shared.init is)).getD [] := by
  have h := coherent is
  refine ⟨h.faithful, fun x hx y hy n n' account account' hn hn' => ⟨?_, ?_⟩, h.ruleIds.1,
    h.upstreamIds.1, fun n rec hrec => ?_, fun n => ⟨h.rules n, h.upstreams n⟩⟩
  · rintro rfl
    exact Option.some.inj ((h.obtained x hx n account hn).symm.trans (h.obtained y hy n account' hn'))
  · intro hne hid
    exact hne (h.directory.distinct n n' account account' (h.obtained x hx n account hn)
      (h.obtained y hy n' account' hn') hid)
  · have hget : (Shared.machine.exec Shared.init is).cp.getAccount n = some rec.account := by
      rw [getAccount, hrec, Option.map_some]
    have hplaced := h.placed n rec.account hget
    rw [InMemControlPlane.rules, hrec, Option.map_some, Option.getD_some] at hplaced
    exact ⟨(h.directory.number n rec.account hget).1, hplaced⟩

/-! ### Lists longer than positions -/

def allowAll : NewRule := ⟨.Allow, .Domain, [], none, none, true⟩

/-- One rule more than there are positions that are not negative. -/
def longList : List NewRule := List.replicate (2 ^ 31 + 1) allowAll

/-- A replace call that runs alone stores the whole list. -/
theorem replaceRules_alone (n : Text) (news : List NewRule) : ∃ accountId rules,
    (Shared.machine.exec Shared.init [.beginReplaceRules n news, .finish 0]).cp.rules n = rules ∧
      rules.map Rule.submitted = news ∧ Placed accountId rules := by
  have h := coherent [.beginReplaceRules n news, .finish 0]
  obtain ⟨account, result, htrace⟩ : ∃ account result,
      Shared.machine.trace Shared.init [.beginReplaceRules n news, .finish 0] =
        [(.beginReplaceRules n news, .account n account),
          (.finish 0, .replacedRules n news result)] := ⟨_, _, rfl⟩
  rw [htrace] at h
  obtain ⟨out, rfl, hsubmitted⟩ := h.faithful (.finish 0, .replacedRules n news result) (by simp)
  have haccount := h.obtained (.beginReplaceRules n news, .account n account) (by simp) n account rfl
  have hrules := h.rules n
  simp only [latest, List.reverse_cons, List.reverse_nil, List.nil_append, List.singleton_append,
    List.findSome?_cons, Returned.rulesFor, if_true, Option.getD_some] at hrules
  exact ⟨account.id, out, hrules, hsubmitted, hrules ▸ h.placed n account haccount⟩

/-- The position of a stored rule wraps around past the last `i32`. -/
theorem long_list_misplaced : ¬ ∀ (is : List Section) (n : Text) (i : ℕ) (rule : Rule),
    ((Shared.machine.exec Shared.init is).cp.rules n)[i]? = some rule → rule.position = i := by
  intro hall
  obtain ⟨accountId, rules, hrules, hsubmitted, hplaced⟩ := replaceRules_alone [] longList
  have hlen : rules.length = 2 ^ 31 + 1 := by
    rw [← List.length_map Rule.submitted, hsubmitted]
    exact List.length_replicate
  obtain ⟨last, hget⟩ : ∃ last, rules[2 ^ 31]? = some last :=
    ⟨_, List.getElem?_eq_getElem (by rw [hlen]; exact Nat.lt_succ_self _)⟩
  have hindex := hall [.beginReplaceRules [] longList, .finish 0] [] (2 ^ 31) last
    (by rw [hrules, hget])
  have hwraps : asI32 (2 ^ 31) ≠ ((2 ^ 31 : ℕ) : ℤ) := by decide
  exact hwraps ((hplaced _ _ hget).2.symm.trans hindex)

end Brdns
