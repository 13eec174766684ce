import Brdns.Proofs.TwoStores

/-! One specification for both stores: every sequence of calls that respects the constraints of
the tables returns the same from the memory store and from Postgres, up to one renaming of the
account, rule and upstream ids. -/

namespace Brdns

open Lib InMemControlPlane

namespace ControlPlane

/-- What the two stores return for a call is the same up to ids. -/
inductive Result.Same (ρ : Renamings) : Result → Result → Prop
  | account {x x' : Account} (h : x.Same ρ x') : Result.Same ρ (.account (.ok x)) (.account (.ok x'))
  | found {x x' : Option Account} (h : Option.Rel (Account.Same ρ) x x') :
      Result.Same ρ (.found (.ok x)) (.found (.ok x'))
  | rules {x x' : List Rule} (h : List.Forall₂ (Rule.Same ρ) x x') :
      Result.Same ρ (.rules (.ok x)) (.rules (.ok x'))
  | upstreams {x x' : List Upstream} (h : List.Forall₂ (Upstream.Same ρ) x x') :
      Result.Same ρ (.upstreams (.ok x)) (.upstreams (.ok x'))
  | upstream {x x' : Option Upstream} (h : Option.Rel (Upstream.Same ρ) x x') :
      Result.Same ρ (.upstream (.ok x)) (.upstream (.ok x'))
  | recorded (x : Option (CplResult Bool)) : Result.Same ρ (.recorded x) (.recorded x)
  | policies {x x' : Snapshot}
      (h : ∀ n, Option.Rel (AccountPolicy.Same ρ) (x.lookup n) (x'.lookup n)) :
      Result.Same ρ (.policies (.ok x)) (.policies (.ok x'))

theorem Result.Same.mono {ρ σ : Renamings} (hle : ρ ≤ σ) {x x' : Result} (h : x.Same ρ x') :
    x.Same σ x' := by
  cases h with
  | account h => exact .account (h.mono hle)
  | found h => exact .found (optionRel_imp (fun _ _ => Account.Same.mono hle) h)
  | rules h => exact .rules (h.imp fun _ _ => Rule.Same.mono hle)
  | upstreams h => exact .upstreams (h.imp fun _ _ => Upstream.Same.mono hle)
  | upstream h => exact .upstream (optionRel_imp (fun _ _ => Upstream.Same.mono hle) h)
  | recorded x => exact .recorded x
  | policies h =>
    exact .policies fun n => optionRel_imp (fun _ _ => AccountPolicy.Same.mono hle) (h n)

structure StorableRules (news : List NewRule) : Prop where
  nulFree : ∀ new ∈ news, NulFree new.targetValue
  complete : ∀ new ∈ news, new.Complete
  length_le : news.length ≤ 2 ^ 31

structure StorableUpstreams (news : List NewUpstream) : Prop where
  nulFree : ∀ new ∈ news, NulFreeUpstream new
  distinct : (news.map NewUpstream.name).Nodup

/-- A call that respects the constraints. -/
def Call.Allowed : Call → Prop
  | .createAccount n | .getAccount n | .rules n | .listUpstreams n | .activeUpstream n
  | .recordQuota n _ _ _ _ => NulFree n
  | .replaceRules n news => NulFree n ∧ StorableRules news
  | .replaceUpstreams n news => NulFree n ∧ StorableUpstreams news
  | .snapshot => True

end ControlPlane

/-! ### Steps -/

section

variable {ρ : Renamings} {s : InMemControlPlane} {db : Database}

/-- Both stores have the account after making sure of it. -/
theorem Mirrors.obtained (h : Mirrors ρ s db) {n : Text} (hn : NulFree n) :
    ∃ (account : Renaming ℤ ℤ) (rec : AccountRecord) (row : Row AccountCols) (db' : Database),
      ρ.account ≤ account ∧
      PostgresControlPlane.accountIdOrCreate db n = (.ok row.id, db') ∧
      row.cols.accountNumber.val = n ∧ (s.getOrCreate n).1 = rec.account ∧
      (s.getOrCreate n).2.accounts.lookup n = some rec ∧ db'.accountNamed n = some row ∧
      Mirrors { ρ with account } (s.getOrCreate n).2 db' := by
  obtain ⟨account, row, db', hle, hrun, hrow, hnumber, hmirrors⟩ := h.obtain hn
  rcases hmirrors.account_cases n with ⟨-, hnone⟩ | ⟨rec, row', hrec, hrow', -⟩
  · rw [hrow] at hnone
    cases hnone
  · have haccount := s.getAccount_getOrCreate n n
    rw [if_pos rfl, InMemControlPlane.getAccount, hrec] at haccount
    exact ⟨account, rec, row, db', hle, hrun, hnumber, (Option.some.inj haccount).symm, hrec,
      hrow, hmirrors⟩

open ControlPlane

theorem Mirrors.createAccount (h : Mirrors ρ s db) {n : Text} (hn : NulFree n) : ∃ σ, ρ ≤ σ ∧
    Mirrors σ (s.createAccount n).2 (PostgresControlPlane.createAccount db n).2 ∧
      Result.Same σ (.account (.ok (s.createAccount n).1))
        (.account (PostgresControlPlane.createAccount db n).1) := by
  obtain ⟨account, rec, row, db', hle, hrun, hnumber, haccount, hrec, hrow, hmirrors⟩ :=
    h.obtained hn
  unfold PostgresControlPlane.createAccount InMemControlPlane.createAccount
  rw [hrun, haccount]
  have hsame := (hmirrors.stored hrec hrow).account
  rw [hnumber] at hsame
  exact ⟨{ ρ with account }, ⟨le_rfl, le_rfl, hle⟩, hmirrors, .account hsame⟩

theorem Mirrors.replaceRules (h : Mirrors ρ s db) {n : Text} (hn : NulFree n)
    {news : List NewRule} (hnews : StorableRules news) : ∃ σ, ρ ≤ σ ∧
    Mirrors σ (s.replaceRules n news).2 (PostgresControlPlane.replaceRules db n news).2 ∧
      Result.Same σ (.rules (s.replaceRules n news).1)
        (.rules (PostgresControlPlane.replaceRules db n news).1) := by
  obtain ⟨account, rec, row, db', hle, hrun, -, haccount, hrec, hrow, hmirrors⟩ := h.obtained hn
  obtain ⟨rule, out, tx, hle', hloop, hsame, hmirrors'⟩ := hmirrors.storeRules hrec hrow
    (fun new hnew => ⟨hnews.nulFree new hnew, hnews.complete new hnew⟩) hnews.length_le
  unfold PostgresControlPlane.replaceRules InMemControlPlane.replaceRules
  rw [hrun]
  dsimp only
  rw [hloop, haccount]
  unfold InMemControlPlane.storeRules
  simp only [hrec, allotRules_last]
  exact ⟨{ ρ with rule, account }, ⟨hle', le_rfl, hle⟩, hmirrors', .rules hsame⟩

theorem Mirrors.replaceUpstreams (h : Mirrors ρ s db) {n : Text} (hn : NulFree n)
    {news : List NewUpstream} (hnews : StorableUpstreams news) : ∃ σ, ρ ≤ σ ∧
    Mirrors σ (s.replaceUpstreams n news).2 (PostgresControlPlane.replaceUpstreams db n news).2 ∧
      Result.Same σ (.upstreams (s.replaceUpstreams n news).1)
        (.upstreams (PostgresControlPlane.replaceUpstreams db n news).1) := by
  obtain ⟨account, rec, row, db', hle, hrun, -, haccount, hrec, hrow, hmirrors⟩ := h.obtained hn
  obtain ⟨upstream, out, tx, hle', hloop, hsame, hmirrors'⟩ :=
    hmirrors.storeUpstreams hrec hrow hnews.nulFree hnews.distinct
  unfold PostgresControlPlane.replaceUpstreams InMemControlPlane.replaceUpstreams
  rw [hrun]
  dsimp only
  rw [hloop, haccount]
  unfold InMemControlPlane.storeUpstreams
  simp only [hrec, allotUpstreams_last]
  exact ⟨{ ρ with upstream, account }, ⟨le_rfl, hle', hle⟩, hmirrors', .upstreams hsame⟩

section

variable {τ : Type} {store : ControlPlane τ} {t : τ} {n : Text} {index : ℕ}

theorem storedRule_of_rules {rules : List Rule} (hrules : store.rules t n = .ok rules) :
    store.storedRule t n index = rules[index]? := by
  unfold ControlPlane.storedRule
  rw [hrules]

theorem call_recordQuota_none (hnone : store.storedRule t n index = none) (limitCount : ℤ)
    (window : Window) (now : ℤ) :
    store.call t (.recordQuota n index limitCount window now) = (.recorded none, t) := by
  simp only [ControlPlane.call, hnone]

theorem call_recordQuota_some {rule : Rule} (hrule : store.storedRule t n index = some rule)
    (limitCount : ℤ) (window : Window) (now : ℤ) :
    store.call t (.recordQuota n index limitCount window now) =
      (.recorded (some (store.recordQuota t n rule.id limitCount window now).1),
        (store.recordQuota t n rule.id limitCount window now).2) := by
  simp only [ControlPlane.call, hrule]

end

/-- A quota recorded for a stored rule. -/
theorem Mirrors.recordStored (h : Mirrors ρ s db) {n : Text} (hn : NulFree n) (index : ℕ)
    (limitCount : ℤ) (window : Window) (now : ℤ) :
    Mirrors ρ (controlPlane.call s (.recordQuota n index limitCount window now)).2
        (PostgresControlPlane.controlPlane.call db (.recordQuota n index limitCount window now)).2 ∧
      Result.Same ρ (controlPlane.call s (.recordQuota n index limitCount window now)).1
        (PostgresControlPlane.controlPlane.call db
          (.recordQuota n index limitCount window now)).1 := by
  obtain ⟨rules, hrules, hsame, hpresent⟩ := h.rules hn
  have hstored : controlPlane.storedRule s n index = (s.rules n)[index]? := rfl
  have hstored' : PostgresControlPlane.controlPlane.storedRule db n index = rules[index]? :=
    storedRule_of_rules hrules
  rcases optionRel_cases (forall₂_getElem? hsame index) with
    ⟨hrule, hrule'⟩ | ⟨rule, rule', hrule, hrule', hrel⟩
  · rw [call_recordQuota_none (hstored.trans hrule), call_recordQuota_none (hstored'.trans hrule')]
    exact ⟨h, .recorded none⟩
  · rw [call_recordQuota_some (hstored.trans hrule), call_recordQuota_some (hstored'.trans hrule')]
    have hmem : rule' ∈ rules := List.mem_of_getElem? hrule'
    rcases h.account_cases n with ⟨hnone, -⟩ | ⟨rec, row, -, hrow, -⟩
    · unfold InMemControlPlane.rules at hrule
      rw [hnone] at hrule
      cases hrule
    · obtain ⟨hresult, hmirrors⟩ := h.recordQuota hn hrow hrel.1 (hpresent rule' hmem)
        limitCount window now
      refine ⟨hmirrors, ?_⟩
      change Result.Same ρ (.recorded (some (s.recordQuota n rule.id _ _ _).1))
        (.recorded (some (PostgresControlPlane.recordQuota db n rule'.id _ _ _).1))
      rw [hresult]
      exact .recorded _

/-- One call keeps the two stores together. -/
theorem Mirrors.call (h : Mirrors ρ s db) {call : ControlPlane.Call}
    (hallowed : call.Allowed) :
    ∃ σ, ρ ≤ σ ∧ Mirrors σ (controlPlane.call s call).2
        (PostgresControlPlane.controlPlane.call db call).2 ∧
      Result.Same σ (controlPlane.call s call).1
        (PostgresControlPlane.controlPlane.call db call).1 := by
  cases call with
  | createAccount n => exact h.createAccount hallowed
  | replaceRules n news => exact h.replaceRules hallowed.1 hallowed.2
  | replaceUpstreams n news => exact h.replaceUpstreams hallowed.1 hallowed.2
  | getAccount n =>
    obtain ⟨found, hfound, hsame⟩ := h.getAccount hallowed
    refine ⟨ρ, le_rfl, h, ?_⟩
    change Result.Same ρ (.found (.ok (s.getAccount n)))
      (.found (PostgresControlPlane.getAccount db n))
    rw [hfound]
    exact .found hsame
  | rules n =>
    obtain ⟨rules, hrules, hsame, -⟩ := h.rules hallowed
    refine ⟨ρ, le_rfl, h, ?_⟩
    change Result.Same ρ (.rules (.ok (s.rules n))) (.rules (PostgresControlPlane.rules db n))
    rw [hrules]
    exact .rules hsame
  | listUpstreams n =>
    obtain ⟨ups, hups, hsame⟩ := h.listUpstreams hallowed
    refine ⟨ρ, le_rfl, h, ?_⟩
    change Result.Same ρ (.upstreams (.ok (s.listUpstreams n)))
      (.upstreams (PostgresControlPlane.listUpstreams db n))
    rw [hups]
    exact .upstreams hsame
  | activeUpstream n =>
    obtain ⟨up, hup, hsame⟩ := h.activeUpstream hallowed
    refine ⟨ρ, le_rfl, h, ?_⟩
    change Result.Same ρ (.upstream (.ok (s.activeUpstream n)))
      (.upstream (PostgresControlPlane.activeUpstream db n))
    rw [hup]
    exact .upstream hsame
  | recordQuota n index limitCount window now =>
    exact ⟨ρ, le_rfl, h.recordStored hallowed index limitCount window now⟩
  | snapshot =>
    obtain ⟨snapshot, hsnapshot, hsame⟩ := h.snapshot
    refine ⟨ρ, le_rfl, h, ?_⟩
    change Result.Same ρ (.policies (.ok s.snapshot)) (.policies (PostgresControlPlane.snapshot db))
    rw [hsnapshot]
    exact .policies hsame

end

/-! ### Runs -/

namespace ControlPlane

theorem mirrors_init : Mirrors ⟨⊥, ⊥, ⊥⟩ InMemControlPlane.default PostgresControlPlane.init where
  accounts n := by
    have hnone : PostgresControlPlane.init.accounts.rows = [] := by decide +kernel
    unfold Database.accountNamed
    rw [hnone]
    exact .none
  ruleIds := Renaming.below_bot _ _
  upstreamIds := Renaming.below_bot _ _
  accountIds := Renaming.below_bot _ _
  counters _ _ _ hij := hij.elim
  unused id ws _ := by simp [InMemControlPlane.default, InMemControlPlane.counter]

/-- The two stores return the same results for every sequence of allowed calls, up to one renaming
of ids and whatever gaps the sequences of the tables have. -/
theorem stores_agree (calls : List (Gap × Call)) (hcalls : ∀ x ∈ calls, x.2.Allowed) :
    ∃ ρ : Renamings, List.Forall₂ (fun x y => x.1 = y.1 ∧ Result.Same ρ x.2 y.2)
      (InMemControlPlane.calls.trace InMemControlPlane.default calls)
      (PostgresControlPlane.calls.trace PostgresControlPlane.init calls) := by
  obtain ⟨ρ, -, -, htrace⟩ := InMemControlPlane.calls.simulation PostgresControlPlane.calls
    (fun x => x.2.Allowed) Mirrors Result.Same (fun _ _ _ _ hle hsame => hsame.mono hle)
    (fun _ _ _ x hx h => (h.skip x.1).call hx) calls hcalls _ _ _ mirrors_init
  exact ⟨ρ, htrace⟩

def limitCalls : List (Gap × Call) :=
  [(⟨0, 0, 0, 0⟩, .replaceRules ['1'] [⟨.Limit, .Domain, ['b'], some 1, some .Hour, true⟩]),
    (⟨1, 2, 3, 4⟩, .recordQuota ['1'] 0 1 .Hour 0), (⟨0, 0, 0, 0⟩, .snapshot)]

theorem stores_agree_limit : ∃ ρ : Renamings,
    List.Forall₂ (fun x y => x.1 = y.1 ∧ Result.Same ρ x.2 y.2)
      (InMemControlPlane.calls.trace InMemControlPlane.default limitCalls)
      (PostgresControlPlane.calls.trace PostgresControlPlane.init limitCalls) := by
  refine stores_agree limitCalls ?_
  simp only [limitCalls, List.forall_mem_cons, Call.Allowed]
  refine ⟨⟨?_, ?_, ?_, ?_⟩, ?_, trivial, by simp⟩
  · unfold NulFree
    decide
  · simp [NulFree]
  · simp [NewRule.Complete]
  · decide
  · unfold NulFree
    decide

end ControlPlane

/-! ### Lists longer than positions -/

/-- What Postgres reads back is in the order of the positions. -/
theorem PostgresControlPlane.rules_sorted {db : PostgresControlPlane} {n : Text}
    {rules : List Rule} (h : PostgresControlPlane.rules db n = .ok rules) :
    rules.Pairwise fun rule rule' => rule.position ≤ rule'.position := by
  unfold PostgresControlPlane.rules at h
  cases hid : accountId db n with
  | error e => rw [hid] at h; cases h
  | ok found =>
    rw [hid] at h
    cases found with
    | none =>
      cases h
      exact .nil
    | some id =>
      have hread := Fold.mapM_ok_iff.mp h
      have hpositions : (Table.orderBy RuleCols.position
          ((Database.rules db).select fun r => r.accountId = id)).map
            (fun r => r.cols.position) = rules.map Rule.position :=
        forall₂_map_eq hread fun _ _ hr => (ruleFromRow_ids hr).2.2.symm
      have hsorted := List.pairwise_map.mpr (Table.orderBy_sorted RuleCols.position
        ((Database.rules db).select fun r => r.accountId = id))
      exact List.pairwise_map.mp (hpositions ▸ hsorted)

namespace ControlPlane

def storeAndRead (n : Text) (news : List NewRule) : List (Gap × Call) :=
  [(⟨0, 0, 0, 0⟩, .replaceRules n news), (⟨0, 0, 0, 0⟩, .rules n)]

/-- The memory store keeps the order of the list, so the positions have to come in that order. -/
theorem stored_in_order {ρ : Renamings} {n : Text} {news : List NewRule}
    (h : List.Forall₂ (fun x y => x.1 = y.1 ∧ Result.Same ρ x.2 y.2)
      (InMemControlPlane.calls.trace InMemControlPlane.default (storeAndRead n news))
      (PostgresControlPlane.calls.trace PostgresControlPlane.init (storeAndRead n news))) :
    (InMemControlPlane.default.newRules n news).Pairwise fun rule rule' =>
      rule.position ≤ rule'.position := by
  obtain ⟨db, htrace⟩ : ∃ db, PostgresControlPlane.calls.trace PostgresControlPlane.init
      (storeAndRead n news) = [((⟨0, 0, 0, 0⟩, .replaceRules n news), _),
        ((⟨0, 0, 0, 0⟩, .rules n), .rules (PostgresControlPlane.rules db n))] := ⟨_, rfl⟩
  have htrace' : InMemControlPlane.calls.trace InMemControlPlane.default (storeAndRead n news) =
      [((⟨0, 0, 0, 0⟩, .replaceRules n news), _), ((⟨0, 0, 0, 0⟩, .rules n),
        .rules (.ok ((InMemControlPlane.default.replaceRules n news).2.rules n)))] := rfl
  rw [htrace, htrace', rules_replaceRules, if_pos rfl] at h
  cases h with
  | cons _ hlast =>
    cases hlast with
    | cons hread _ =>
      generalize hrules : PostgresControlPlane.rules db n = result at hread
      cases hread.2 with
      | rules hsame =>
        have hpositions : _ = _ := forall₂_map_eq hsame (f := Rule.position) (g := Rule.position)
          fun x x' hrel => (congrArg Rule.position hrel.2.2).symm
        have hsorted := List.pairwise_map.mpr (PostgresControlPlane.rules_sorted hrules)
        exact List.pairwise_map.mp (hpositions ▸ hsorted)

/-- Past the last position the next one is negative. -/
theorem newRules_unsorted (cp : InMemControlPlane) (n : Text) {news : List NewRule}
    (hlong : 2 ^ 31 < news.length) : ¬ (cp.newRules n news).Pairwise fun rule rule' =>
      rule.position ≤ rule'.position := by
  intro hsorted
  have hplaced : Placed (cp.recordOf n).account.id (cp.newRules n news) :=
    allotRules_placed _ _ news
  have hlen : (cp.newRules n news).length = news.length := by
    rw [newRules, ← List.length_map Rule.submitted, allotRules_submitted]
  have hfirst : 0 < (cp.newRules n news).length := by omega
  have hlast : 2 ^ 31 < (cp.newRules n news).length := hlen.symm ▸ hlong
  have hle := List.pairwise_iff_getElem.mp hsorted 0 (2 ^ 31) hfirst hlast (by norm_num)
  rw [(hplaced 0 _ (List.getElem?_eq_getElem hfirst)).2,
    (hplaced (2 ^ 31) _ (List.getElem?_eq_getElem hlast)).2] at hle
  exact absurd hle (by decide)

/-- A list with more rules than there are positions comes back in another order. -/
theorem long_list_reordered : (∀ new ∈ longList, NulFree new.targetValue ∧ new.Complete) ∧
    ¬ ∃ ρ : Renamings, List.Forall₂ (fun x y => x.1 = y.1 ∧ Result.Same ρ x.2 y.2)
      (InMemControlPlane.calls.trace InMemControlPlane.default (storeAndRead [] longList))
      (PostgresControlPlane.calls.trace PostgresControlPlane.init (storeAndRead [] longList)) := by
  constructor
  · intro new hnew
    rw [List.eq_of_mem_replicate hnew]
    simp [NulFree, NewRule.Complete, allowAll]
  · rintro ⟨ρ, htraces⟩
    have hlong : 2 ^ 31 < longList.length := by
      unfold longList
      rw [List.length_replicate]
      exact Nat.lt_succ_self _
    exact newRules_unsorted InMemControlPlane.default [] hlong (stored_in_order htraces)

end ControlPlane

end Brdns
