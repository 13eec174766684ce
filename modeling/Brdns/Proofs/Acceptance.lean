import Brdns.Proofs.Statements
import Brdns.Spec.ControlPlane

/-! Which bodies the management API accepts over the two stores. The handlers check less than the
constraints of the tables do: a limit without its fields and a name given twice pass the one and
break the other. -/

namespace Brdns

open Lib Database

namespace PostgresControlPlane

/-- A list of rules is stored exactly when each limit among them is complete. -/
theorem replaceRules_ok_iff (self : PostgresControlPlane) {n : Text} (hn : NulFree n)
    {news : List NewRule} (hnul : ∀ new ∈ news, NulFree new.targetValue) :
    (∃ out, (replaceRules self n news).1 = .ok out) ↔ ∀ new ∈ news, new.Complete := by
  obtain ⟨id, self', hrun, haccount⟩ := accountIdOrCreate_present self hn
  unfold replaceRules
  rw [hrun]
  dsimp only
  constructor
  · rintro ⟨out, hout⟩ new hnew
    by_contra hnot
    obtain ⟨e, tx', hloop⟩ :=
      insertRules_refused 0 (self'.deleteRules id) haccount hnul ⟨new, hnew, hnot⟩
    rw [hloop] at hout
    cases hout
  · intro hcomplete
    obtain ⟨tx', rows, hloop, -⟩ := insertRules_complete 0 (self'.deleteRules id) haccount
      fun new hnew => ⟨hnul new hnew, hcomplete new hnew⟩
    rw [hloop]
    exact ⟨_, rfl⟩

/-- A list of upstreams is stored exactly when no name is given twice. -/
theorem replaceUpstreams_ok_iff (self : PostgresControlPlane) {n : Text} (hn : NulFree n)
    {news : List NewUpstream} (hnul : ∀ new ∈ news, NulFreeUpstream new) :
    (∃ out, (replaceUpstreams self n news).1 = .ok out) ↔ (news.map NewUpstream.name).Nodup := by
  obtain ⟨id, self', hrun, haccount⟩ := accountIdOrCreate_present self hn
  unfold replaceUpstreams
  rw [hrun]
  dsimp only
  constructor
  · rintro ⟨out, hout⟩
    by_contra hnot
    obtain ⟨e, tx', hloop⟩ :=
      insertUpstreams_refused (self'.deleteUpstreams id) haccount hnul fun h => hnot h.1
    rw [hloop] at hout
    cases hout
  · intro hnames
    obtain ⟨tx', rows, hloop, -⟩ := insertUpstreams_distinct (self'.deleteUpstreams id) haccount
      hnul hnames fun new _ => nameFree_deleteUpstreams self' id new.name
    rw [hloop]
    exact ⟨_, rfl⟩

end PostgresControlPlane

namespace Http

open InMemControlPlane

def Accepted {σ : Type} (r : CplResult Response × σ) : Prop := ∃ body, r.1 = .ok ⟨200, body⟩

theorem answer_accepted_iff {α σ : Type} (body : α → Body) (result : CplResult α) (s : σ) :
    Accepted (answer (fun a => ⟨200, body a⟩) result, s) ↔ ∃ a, result = .ok a := by
  unfold Accepted answer
  rcases result with (message | message) | a
  · simp [internalError, err]
  · simp [internalError]
  · simp

theorem replaceRules_accepted_iff {σ : Type} (store : ManagementStore σ) (s : σ) (acct : Text)
    {body : List NewRule} (hbody : body.any invalidRule = false) :
    Accepted (Http.replaceRules store s acct body) ↔
      ∃ out, (store.replaceRules s acct body).1 = .ok out := by
  unfold Http.replaceRules
  rw [hbody]
  exact answer_accepted_iff Body.rules _ _

theorem replaceUpstreams_accepted_iff {σ : Type} (store : ManagementStore σ) (s : σ) (acct : Text)
    (body : List NewUpstream) : Accepted (Http.replaceUpstreams store s acct body) ↔
      ∃ out, (store.replaceUpstreams s acct body).1 = .ok out :=
  answer_accepted_iff Body.upstreams _ _

/-- The memory store and the tables accept the same valid bodies exactly where every limit is
complete and no upstream name is given twice. -/
theorem same_bodies_accepted_iff (s : InMemControlPlane) (db : PostgresControlPlane) {acct : Text}
    (hacct : NulFree acct) {rules : List NewRule} (hvalid : rules.any invalidRule = false)
    (hrules : ∀ new ∈ rules, NulFree new.targetValue) {ups : List NewUpstream}
    (hups : ∀ new ∈ ups, NulFreeUpstream new) :
    ((Accepted (Http.replaceRules managementStore s acct rules) ↔
        Accepted (Http.replaceRules PostgresControlPlane.managementStore db acct rules)) ↔
      ∀ new ∈ rules, new.Complete) ∧
    ((Accepted (Http.replaceUpstreams managementStore s acct ups) ↔
        Accepted (Http.replaceUpstreams PostgresControlPlane.managementStore db acct ups)) ↔
      (ups.map NewUpstream.name).Nodup) := by
  have hmem : Accepted (Http.replaceRules managementStore s acct rules) := by
    rw [replaceRules_accepted_iff managementStore s acct hvalid]
    exact ⟨_, congrArg Prod.fst (replaceRules_eq s acct rules)⟩
  have hmem' : Accepted (Http.replaceUpstreams managementStore s acct ups) := by
    rw [replaceUpstreams_accepted_iff]
    exact ⟨_, congrArg Prod.fst (replaceUpstreams_eq s acct ups)⟩
  have hdb := replaceRules_accepted_iff PostgresControlPlane.managementStore db acct hvalid
  have hdb' := replaceUpstreams_accepted_iff PostgresControlPlane.managementStore db acct ups
  constructor
  · rw [iff_true_left hmem, hdb]
    exact db.replaceRules_ok_iff hacct hrules
  · rw [iff_true_left hmem', hdb']
    exact db.replaceUpstreams_ok_iff hacct hups

def fullLimit : NewRule := ⟨.Limit, .Domain, "example.com".toList, some 5, some .Day, true⟩

def oneUpstream : NewUpstream := ⟨"u".toList, .Dot, "1.2.3.4".toList, 853, none⟩

theorem same_bodies_accepted_iff_full :
    ((Accepted (Http.replaceRules managementStore InMemControlPlane.default "a".toList
          [fullLimit]) ↔
        Accepted (Http.replaceRules PostgresControlPlane.managementStore Database.empty "a".toList
          [fullLimit])) ↔
      ∀ new ∈ [fullLimit], new.Complete) ∧
    ((Accepted (Http.replaceUpstreams managementStore InMemControlPlane.default "a".toList
          [oneUpstream, oneUpstream]) ↔
        Accepted (Http.replaceUpstreams PostgresControlPlane.managementStore Database.empty
          "a".toList [oneUpstream, oneUpstream])) ↔
      ([oneUpstream, oneUpstream].map NewUpstream.name).Nodup) :=
  same_bodies_accepted_iff InMemControlPlane.default Database.empty
    (by unfold NulFree; decide) (by decide)
    (by simp [NulFree, fullLimit]) (by simp [NulFreeUpstream, NulFree, oneUpstream])

/-- A limit without a count or a window, as the payload's defaults leave it. -/
def bareLimit : NewRule := ⟨.Limit, .Domain, "example.com".toList, none, none, true⟩

/-- The memory store keeps a limit without its fields, over the tables it is an internal error. -/
theorem bareLimit_refused : [bareLimit].any invalidRule = false ∧
    Accepted (Http.replaceRules managementStore InMemControlPlane.default "a".toList
      [bareLimit]) ∧
    (Http.replaceRules PostgresControlPlane.managementStore
      (PostgresControlPlane.connect Database.empty).2 "a".toList [bareLimit]).1 = .ok (err 500
        "new row for relation \"rules\" violates check constraint \"rules_limit_requires_window\"") ∧
    ¬ Accepted (Http.replaceRules PostgresControlPlane.managementStore
      (PostgresControlPlane.connect Database.empty).2 "a".toList [bareLimit]) := by
  have hrefused : (Http.replaceRules PostgresControlPlane.managementStore
      (PostgresControlPlane.connect Database.empty).2 "a".toList [bareLimit]).1 = .ok (err 500
        "new row for relation \"rules\" violates check constraint \"rules_limit_requires_window\"") := by
    decide +kernel
  refine ⟨by decide, ⟨_, rfl⟩, hrefused, ?_⟩
  rintro ⟨body, hbody⟩
  rw [hrefused] at hbody
  cases hbody

end Http

end Brdns
