import Brdns.Proofs.Acceptance
import Brdns.Proofs.Journal

/-! What the management API shows and takes. In any run a listing is the list that was last
accepted, as it was answered, and a list that was accepted once is accepted again: for any account,
at any later time, on any server with the same store. So what `brdns-admin` lists is a backup. -/

namespace Brdns

open Lib Lib.Fold Database

/-! ### Stores that answer -/

/-- A store shows its accounts, and whether it takes a list depends on the list alone. `Named` are
the numbers that it can be asked for. -/
structure ControlPlane.Serves {σ : Type} (store : ControlPlane σ) (Good : σ → Prop)
    (Named : Text → Prop) (TakesRules : List NewRule → Prop)
    (TakesUpstreams : List NewUpstream → Prop) : Prop where
  rules : ∀ s n, Good s → Named n → ∃ rs, store.rules s n = .ok rs
  listUpstreams : ∀ s n, Good s → Named n → ∃ ups, store.listUpstreams s n = .ok ups
  replaceRules : ∀ s n news, Named n → TakesRules news →
    ∃ rs, (store.replaceRules s n news).1 = .ok rs
  replaceUpstreams : ∀ s n news, Named n → TakesUpstreams news →
    ∃ ups, (store.replaceUpstreams s n news).1 = .ok ups
  takesRules : ∀ s n news, (store.replaceRules s n news).1.isOk → TakesRules news
  takesUpstreams : ∀ s n news, (store.replaceUpstreams s n news).1.isOk → TakesUpstreams news
  empty : TakesRules [] ∧ TakesUpstreams []

theorem InMemControlPlane.serves : controlPlane.Serves (fun _ => True) (fun _ => True)
    (fun _ => True) fun _ => True where
  rules self n _ _ := ⟨_, rfl⟩
  listUpstreams self n _ _ := ⟨_, rfl⟩
  replaceRules self n news _ _ := by
    change ∃ rs, (self.replaceRules n news).1 = .ok rs
    rw [replaceRules_eq]
    exact ⟨_, rfl⟩
  replaceUpstreams self n news _ _ := by
    change ∃ ups, (self.replaceUpstreams n news).1 = .ok ups
    rw [replaceUpstreams_eq]
    exact ⟨_, rfl⟩
  takesRules _ _ _ _ := trivial
  takesUpstreams _ _ _ _ := trivial
  empty := ⟨trivial, trivial⟩

namespace PostgresControlPlane

theorem rules_ok (db : PostgresControlPlane) {n : Text} (hn : NulFree n) :
    ∃ rs, rules db n = .ok rs := by
  unfold rules
  rw [accountId_named db hn]
  cases db.accountNamed n with
  | none => exact ⟨[], rfl⟩
  | some row =>
    refine mapM_ok fun r hr => ?_
    have hmem := (List.mem_filter.mp ((Table.orderBy_perm _ _).mem_iff.mp hr)).1
    exact ruleFromRow_ok (db.constraints.rules_check r hmem)

theorem listUpstreams_ok {db : PostgresControlPlane} (hsound : SoundUpstreams db) {n : Text}
    (hn : NulFree n) : ∃ ups, listUpstreams db n = .ok ups := by
  unfold listUpstreams
  rw [accountId_named db hn]
  cases db.accountNamed n with
  | none => exact ⟨[], rfl⟩
  | some row =>
    refine mapM_ok fun r hr => ?_
    have hmem := (List.mem_filter.mp hr).1
    obtain ⟨up, hup, -⟩ := upstreamFromRow_ok (db.constraints.upstreams_check r hmem) (hsound r hmem)
    exact ⟨up, hup⟩

def TakesRules (news : List NewRule) : Prop :=
  ∀ new ∈ news, NulFree new.targetValue ∧ new.Complete

def TakesUpstreams (news : List NewUpstream) : Prop :=
  (∀ new ∈ news, NulFreeUpstream new) ∧ (news.map NewUpstream.name).Nodup

theorem serves : controlPlane.Serves Reachable NulFree TakesRules TakesUpstreams where
  rules db n _ hn := rules_ok db hn
  listUpstreams db n h hn := listUpstreams_ok h.soundUpstreams hn
  replaceRules db n news hn htakes :=
    (replaceRules_ok_iff db hn fun new hnew => (htakes new hnew).1).mpr
      fun new hnew => (htakes new hnew).2
  replaceUpstreams db n news hn htakes := (replaceUpstreams_ok_iff db hn htakes.1).mpr htakes.2
  takesRules db n news hok := by
    have hput := replaceRules_put db n news
    change (replaceRules db n news).1.isOk at hok
    generalize replaceRules db n news = r at hput hok
    cases hput with
    | refused | rolledBack => cases hok
    | stored hrow hadded hread htaken => exact htaken
  takesUpstreams db n news hok := by
    have hput := replaceUpstreams_put db n news
    change (replaceUpstreams db n news).1.isOk at hok
    generalize replaceUpstreams db n news = r at hput hok
    cases hput with
    | refused | rolledBack => cases hok
    | stored hrow hadded hread htaken => exact htaken
  empty := ⟨fun _ h => absurd h List.not_mem_nil, fun _ h => absurd h List.not_mem_nil,
    List.nodup_nil⟩

end PostgresControlPlane

theorem ControlPlane.Serves.first {σ : Type} {store : ControlPlane σ} {Good : σ → Prop}
    {Named : Text → Prop} {TakesRules : List NewRule → Prop}
    {TakesUpstreams : List NewUpstream → Prop}
    (h : store.Serves Good Named TakesRules TakesUpstreams) (τ : Type) :
    (store.first τ).Serves (fun s => Good s.1) Named TakesRules TakesUpstreams where
  rules s n := h.rules s.1 n
  listUpstreams s n := h.listUpstreams s.1 n
  replaceRules s n news := h.replaceRules s.1 n news
  replaceUpstreams s n news := h.replaceUpstreams s.1 n news
  takesRules s n news := h.takesRules s.1 n news
  takesUpstreams s n news := h.takesUpstreams s.1 n news
  empty := h.empty

/-! ### Lists on file -/

/-- Every list of the book passed the check of the API and was taken by the store. -/
structure Book.Filed (book : Book NewRule NewUpstream) (Fits TakesRules : List NewRule → Prop)
    (TakesUpstreams : List NewUpstream → Prop) : Prop where
  valid : ∀ n, (book n).rules.any Http.invalidRule = false
  fits : ∀ n, Fits (book n).rules
  rules : ∀ n, TakesRules (book n).rules
  upstreams : ∀ n, TakesUpstreams (book n).upstreams

section

variable {Fits TakesRules : List NewRule → Prop} {TakesUpstreams : List NewUpstream → Prop}

namespace Book.Filed

theorem putRules {book : Book NewRule NewUpstream}
    (h : book.Filed Fits TakesRules TakesUpstreams) (n : Text)
    {news : List NewRule} (hvalid : news.any Http.invalidRule = false) (hfits : Fits news)
    (htakes : TakesRules news) : (book.putRules n news).Filed Fits TakesRules TakesUpstreams := by
  have hput (n' : Text) : book.putRules n news n' =
      if n' = n then { book n with rules := news } else book n' := Function.update_apply _ _ _ _
  refine ⟨fun n' => ?_, fun n' => ?_, fun n' => ?_, fun n' => ?_⟩ <;> rw [hput] <;> split_ifs
  · exact hvalid
  · exact h.valid n'
  · exact hfits
  · exact h.fits n'
  · exact htakes
  · exact h.rules n'
  · exact h.upstreams n
  · exact h.upstreams n'

theorem putUpstreams {book : Book NewRule NewUpstream}
    (h : book.Filed Fits TakesRules TakesUpstreams) (n : Text)
    {news : List NewUpstream} (htakes : TakesUpstreams news) :
    (book.putUpstreams n news).Filed Fits TakesRules TakesUpstreams := by
  have hput (n' : Text) : book.putUpstreams n news n' =
      if n' = n then { book n with upstreams := news } else book n' :=
    Function.update_apply _ _ _ _
  refine ⟨fun n' => ?_, fun n' => ?_, fun n' => ?_, fun n' => ?_⟩ <;> rw [hput] <;> split_ifs
  · exact h.valid n
  · exact h.valid n'
  · exact h.fits n
  · exact h.fits n'
  · exact h.rules n
  · exact h.rules n'
  · exact htakes
  · exact h.upstreams n'

theorem carriedOut_answer {α : Type} (body : α → Http.Body) (result : CplResult α) :
    carriedOut (Http.answer (fun a => ⟨200, body a⟩) result) = result.isOk := by
  cases result with
  | ok a => rfl
  | error e => cases e <;> rfl

/-- What is carried out is on file afterwards. -/
theorem answered {σ : Type} {store : ControlPlane σ} {Good : σ → Prop} {Named : Text → Prop}
    (hserves : store.Serves Good Named TakesRules TakesUpstreams)
    {book : Book NewRule NewUpstream} (h : book.Filed Fits TakesRules TakesUpstreams)
    {req : Http.Request} (hfits : req.Fits Fits)
    (s : σ) : (book.answered req (Http.handle store.toManagementStore s req).1).Filed Fits TakesRules
      TakesUpstreams := by
  unfold Book.answered
  split_ifs with hdone
  · cases req with
    | replaceRules n body =>
      cases body with
      | error rejection => exact h
      | ok news =>
        change carriedOut (Http.replaceRules store.toManagementStore s n news).1 at hdone
        unfold Http.replaceRules at hdone
        split_ifs at hdone with hinvalid
        · cases hdone
        · dsimp only at hdone
          rw [carriedOut_answer] at hdone
          exact h.putRules n (by simpa using hinvalid) hfits (hserves.takesRules s n news hdone)
    | replaceUpstreams n body =>
      cases body with
      | error rejection => exact h
      | ok news =>
        change carriedOut (Http.replaceUpstreams store.toManagementStore s n news).1 at hdone
        unfold Http.replaceUpstreams at hdone
        dsimp only at hdone
        rw [carriedOut_answer] at hdone
        exact h.putUpstreams n (hserves.takesUpstreams s n news hdone)
    | _ => exact h
  · exact h

end Book.Filed

/-! ### Runs -/

section

variable {σ ω : Type} {store : Store σ ω} {setup : Setup} {Good : σ → Prop} {Named : Text → Prop}
  {durable : Bool} {journal : Journal} {s : Runtime σ}

theorem filed_empty {store : ControlPlane σ}
    (hserves : store.Serves Good Named TakesRules TakesUpstreams) (hempty : Fits []) :
    Book.empty.Filed Fits TakesRules TakesUpstreams :=
  ⟨fun _ => rfl, fun _ => hempty, fun _ => hserves.empty.1, fun _ => hserves.empty.2⟩

variable [Text.UnicodeTables]

theorem step_filed (hserves : store.Serves Good Named TakesRules TakesUpstreams)
    (hempty : Fits []) (h : journal.sent.Filed Fits TakesRules TakesUpstreams) {i : Input ω}
    (hfits : i.Fits Fits) :
    (journal.after durable i (s.step store setup i).1).sent.Filed Fits TakesRules
      TakesUpstreams := by
  cases i with
  | api req => exact h.answered hserves hfits s.cp
  | restart boot =>
    obtain ⟨accounts, ingested, hstarted⟩ := start_reaction store setup (store.connect s.cp) boot
    change (journal.after durable _ (Runtime.start store setup (store.connect s.cp) boot).1).sent.Filed
      _ _ _
    rw [hstarted]
    change (if durable then journal else .opened .empty).sent.Filed _ _ _
    split_ifs
    · exact h
    · exact filed_empty hserves hempty
  | _ => exact h

variable (setup durable) in
theorem run_filed (hserves : store.Serves Good Named TakesRules TakesUpstreams) (hempty : Fits [])
    {cp : σ} (hfresh : store.shelves cp = .empty) (boot : Boot ω) (is : List (Input ω))
    (hfits : ∀ i ∈ is, i.Fits Fits) :
    ((Runtime.booked store setup durable).exec
      (Runtime.bookedStart store setup cp boot) is).2.sent.Filed Fits TakesRules TakesUpstreams := by
  refine Machine.invariant _ (fun x : Runtime σ × Journal => x.2.sent.Filed Fits TakesRules
    TakesUpstreams) (Input.Fits Fits) (fun _ _ hi h => step_filed hserves hempty h hi) is _ hfits ?_
  change (Shelves.submitted (store.shelves cp)).Filed _ _ _
  rw [hfresh]
  exact filed_empty hserves hempty

variable (store setup) in
/-- The API lists for an account what was last accepted for it, under the ids that the answer to it
showed. -/
def Shown (durable : Bool) (cp : σ) (boot : Boot ω) (is : List (Input ω)) (n : Text) : Prop :=
  let (s, journal) :=
    (Runtime.booked store setup durable).exec (Runtime.bookedStart store setup cp boot) is
  (s.step store setup (.api (.listRules n))).1 = .api (.ok ⟨200, .rules (journal.kept n).rules⟩) ∧
    (s.step store setup (.api (.listUpstreams n))).1 =
      .api (.ok ⟨200, .upstreams (journal.kept n).upstreams⟩) ∧
    (journal.kept n).submitted = journal.sent n

omit [Text.UnicodeTables] in
theorem ControlPlane.Serves.shows {store : ControlPlane σ}
    (hserves : store.Serves Good Named TakesRules TakesUpstreams) {s : σ} (hgood : Good s)
    {n : Text} (hn : Named n) :
    Http.listRules store.toManagementStore s n = .ok ⟨200, .rules (store.shelves s n).rules⟩ ∧
      Http.listUpstreams store.toManagementStore s n =
        .ok ⟨200, .upstreams (store.shelves s n).upstreams⟩ := by
  obtain ⟨rules, hrules⟩ := hserves.rules s n hgood hn
  obtain ⟨ups, hups⟩ := hserves.listUpstreams s n hgood hn
  unfold Http.listRules Http.listUpstreams ControlPlane.shelves
  rw [hrules, hups]
  exact ⟨rfl, rfl⟩

variable (setup) in
theorem shown (hstore : store.KeepsShelves Good Fits durable)
    (hserves : store.Serves Good Named TakesRules TakesUpstreams) {cp : σ} (hgood : Good cp)
    (boot : Boot ω) (is : List (Input ω)) (hfits : ∀ i ∈ is, i.Fits Fits) {n : Text} (hn : Named n) :
    Shown store setup durable cp boot is n := by
  have hbooked := run_booked setup hstore hgood boot is hfits
  obtain ⟨hrules, hups⟩ := hserves.shows hbooked.good hn
  rw [hbooked.kept] at hrules hups
  exact ⟨congrArg Reaction.api hrules, congrArg Reaction.api hups, congrFun hbooked.sent n⟩

end

end

/-- Over either store, with queries, refreshes, ingestions, failures and restarts in between, a
listing shows exactly the list that was last accepted, under the ids that its answer showed: over
the tables ever, in memory since the last start. -/
theorem listings_current [Text.UnicodeTables] (setup : Setup) :
    (∀ (cp : InMemControlPlane) (boot : Boot ℤ) (is : List (Input ℤ)) (n : Text),
      Shown InMemControlPlane.store setup false cp boot is n) ∧
    ∀ (db : PostgresControlPlane) (tables : BlocklistTables)
      (boot : Boot (ℤ × BlocklistTables.IterationOrder)) (is : List (Input _)) (n : Text),
      PostgresControlPlane.Reachable db → (∀ i ∈ is, i.Fits fun news => news.length ≤ 2 ^ 31) →
      NulFree n → Shown PostgresControlPlane.store setup true (db, tables) boot is n := by
  refine ⟨fun cp boot is n => ?_, fun db tables boot is n hdb hfits hn => ?_⟩
  · exact shown setup InMemControlPlane.store_keepsShelves InMemControlPlane.serves trivial boot is
      (fun i _ => i.fits_of_forall fun _ => trivial) trivial
  · exact shown setup PostgresControlPlane.store_keepsShelves
      (PostgresControlPlane.serves.first BlocklistTables) hdb boot is hfits hn

section

attribute [local instance] Text.asciiTables

theorem listings_current_late_edit : ∃ order : BlocklistTables.IterationOrder,
    Shown InMemControlPlane.store plainSetup false InMemControlPlane.default (calmBoot 0)
        lateEdit ['1'] ∧
      Shown PostgresControlPlane.store plainSetup true (Database.empty, BlocklistTables.empty)
        (calmBoot (0, order)) lateEdit ['1'] := by
  obtain ⟨order⟩ := BlocklistTables.iterationOrder_nonempty
  refine ⟨order, (listings_current plainSetup).1 _ _ _ _,
    (listings_current plainSetup).2 _ _ _ _ _ .empty ?_ (by simp [NulFree])⟩
  unfold lateEdit
  simp [Input.Fits, Http.Request.Fits]

end

end Brdns
