import Brdns.Proofs.Journal

/-! When an edit takes effect. A refresh that begins after the last edit brings every policy up to
what the management API lists, whatever else runs between its parts, and nothing but another edit
or a restart changes that. -/

namespace Brdns

open Lib Lib.Fold Database

/-! ### Snapshots of a store that is not edited -/

structure View.Shows (view : View Rule Upstream) (shelves : Shelves) : Prop where
  book : view.book = shelves
  unlisted : ∀ n, view.listed n = false → shelves n = ⟨[], []⟩

/-- A snapshot comes to an end after its parts, and if these all saw the same it stands for what
they saw. -/
structure Store.Settles {σ ω : Type} (store : Store σ ω) (kind : StoreKind) (Good : σ → Prop)
    (Seen : σ → List (View Rule Upstream) → Reading → Prop) : Prop where
  unlisted : ∀ s n, Good s → store.listed s n = false → store.shelves s n = ⟨[], []⟩
  goesOn : ∀ s views reading, Good s → (∀ result, reading ≠ .done result) → Seen s views reading →
    views.length + 1 < kind.parts → ∀ result, store.read s reading ≠ .done result
  ends : ∀ s views reading, Good s → (∀ result, reading ≠ .done result) → Seen s views reading →
    views.length + 1 = kind.parts → ∃ snapshot, store.read s reading = .done (.ok snapshot)
  whole : ∀ s views snapshot shelves, Seen s views (.done (.ok snapshot)) →
    (∀ view ∈ views, view.Shows shelves) → kind.assemble views = shelves

namespace InMemControlPlane

theorem unlisted (self : InMemControlPlane) (n : Text) (h : controlPlane.listed self n = false) :
    controlPlane.shelves self n = ⟨[], []⟩ := by
  change (self.getAccount n).isSome = false at h
  unfold getAccount at h
  rw [Option.isSome_map, Option.isSome_eq_false_iff, Option.isNone_iff_eq_none] at h
  rw [shelves_eq]
  unfold rules listUpstreams
  rw [h]
  rfl

theorem store_settles : InMemControlPlane.store.Settles .memory (fun _ => True) Seen where
  unlisted self n _ := self.unlisted n
  goesOn _ views _ _ _ _ hlt := absurd hlt (by change ¬ _ < 1; omega)
  ends self _ _ _ _ _ _ := ⟨self.snapshot, rfl⟩
  whole _ _ _ _ hseen hshows := by
    cases hseen with
    | taken hfills => exact (hshows _ List.mem_cons_self).book

end InMemControlPlane

namespace PostgresControlPlane

theorem unlisted (db : PostgresControlPlane) (n : Text) (h : controlPlane.listed db n = false) :
    controlPlane.shelves db n = ⟨[], []⟩ := by
  rw [listed_eq, Option.isSome_eq_false_iff, Option.isNone_iff_eq_none] at h
  exact shelves_unnamed h

/-- Rows that read back are collected. -/
theorem collect_ok (accounts : List (Row AccountCols)) {rules : List (Row RuleCols)}
    {upstreams : List (Row UpstreamCols)}
    (hrules : ∀ row ∈ rules, ∃ rule, ruleFromRow row = .ok rule)
    (hups : ∀ row ∈ upstreams, ∃ up, upstreamFromRow row = .ok up) :
    ∃ snapshot, collect accounts rules upstreams = .ok snapshot := by
  have hpush : ∃ map, rules.foldlM pushRule ∅ = .ok map := by
    refine foldlM_ok (fun row hrow map => ?_) ∅
    obtain ⟨rule, hrule⟩ := hrules row hrow
    unfold pushRule
    rw [hrule]
    exact ⟨_, rfl⟩
  have hinsert : ∃ map, upstreams.foldlM insertActive ∅ = .ok map := by
    refine foldlM_ok (fun row hrow map => ?_) ∅
    obtain ⟨up, hup⟩ := hups row hrow
    unfold insertActive
    rw [hup]
    exact ⟨_, rfl⟩
  obtain ⟨rulesByAccount, hpush⟩ := hpush
  obtain ⟨upstreamByAccount, hinsert⟩ := hinsert
  unfold collect
  rw [hpush, hinsert]
  exact ⟨_, rfl⟩

theorem store_settles : PostgresControlPlane.store.Settles .tables (fun s => Reachable s.1)
    fun s => Seen s.1 where
  unlisted s n _ := unlisted s.1 n
  goesOn s views reading _ hmore hseen hlt := by
    cases hseen with
    | begins => exact fun result => by simp [PostgresControlPlane.store, PostgresControlPlane.read]
    | accounts => exact fun result => by simp [PostgresControlPlane.store, PostgresControlPlane.read]
    | rules => exact absurd hlt (lt_irrefl 3)
    | taken | failed => exact absurd rfl (hmore _)
  ends s views reading hgood hmore hseen hlast := by
    cases hseen with
    | begins => cases hlast
    | accounts => cases hlast
    | rules hroster hholds hread =>
      have hups : ∀ row ∈ Table.distinctOn UpstreamCols.accountId
          (Table.orderBy (fun u => u.accountId.getD 0)
            (s.1.upstreams.select fun u => u.accountId.isSome)),
          ∃ up, upstreamFromRow row = .ok up := by
        intro row hrow
        have hmem := (Table.orderBy_perm _ _).mem_iff.mp ((Table.distinctOn_sublist _ _).subset hrow)
        have hrow := (List.mem_filter.mp hmem).1
        obtain ⟨up, hup, -⟩ := upstreamFromRow_ok (s.1.constraints.upstreams_check row hrow)
          (hgood.soundUpstreams row hrow)
        exact ⟨up, hup⟩
      obtain ⟨snapshot, hsnapshot⟩ := collect_ok _ hread hups
      exact ⟨snapshot, congrArg Reading.done hsnapshot⟩
    | taken | failed => exact absurd rfl (hmore _)
  whole s views snapshot shelves hseen hshows := by
    cases hseen with
    | @taken view view' view'' _ hfills =>
      have hview := hshows view (by simp)
      have hview' := hshows view' (by simp)
      have hview'' := hshows view'' (by simp)
      funext n
      change (if view.listed n then _ else _) = _
      rw [hview'.book, hview''.book]
      split_ifs with hlisted
      · rfl
      · exact (hview.unlisted n (by simpa using hlisted)).symm

end PostgresControlPlane

/-! ### Inputs that edit nothing -/

/-- Neither an edit nor a restart. -/
def Input.Quiet {ω : Type} : Input ω → Prop
  | .api (.replaceRules _ _) | .api (.replaceUpstreams _ _) | .restart _ => False
  | _ => True

def Input.ofPoll {ω : Type} : Input ω → Bool
  | .fetch _ | .install _ | .ingest _ _ _ => true
  | _ => false

section

variable {σ ω : Type} {store : Store σ ω} {setup : Setup} {kind : StoreKind}
  {Good : σ → Prop} {Fits : List NewRule → Prop}
  {Seen : σ → List (View Rule Upstream) → Reading → Prop} {s : Runtime σ} {shelves : Shelves}

theorem quiet_fits {i : Input ω} (hquiet : i.Quiet) : i.Fits Fits := by
  cases i with
  | api req =>
    cases req with
    | replaceRules n body | replaceUpstreams n body => exact hquiet.elim
    | _ => trivial
  | _ => trivial

theorem quiet_kept {i : Input ω} (hquiet : i.Quiet) (journal : Journal) (reaction : Reaction) :
    (journal.after kind.durable i reaction).kept = journal.kept := by
  cases i with
  | api req =>
    cases reaction with
    | api response =>
      cases req with
      | replaceRules n body | replaceUpstreams n body => exact hquiet.elim
      | _ => rfl
    | _ => rfl
  | restart boot => exact hquiet.elim
  | _ => cases reaction <;> rfl

/-! ### A refresh -/

theorem fetch_of_fetching {reading : Reading} (h : s.Fetching reading) (failure : Option Failure) :
    s.fetch store failure = s.advance store reading failure := by
  unfold Runtime.fetch
  cases h with
  | begins hpoll => rw [hpoll]
  | goesOn hpoll hmore =>
    rw [hpoll]
    cases reading with
    | done result => exact absurd rfl (hmore result)
    | _ => rfl

theorem more_of_fetching {reading : Reading} (h : s.Fetching reading) :
    ∀ result, reading ≠ .done result := by
  cases h with
  | begins hpoll => exact fun result => by simp
  | goesOn hpoll hmore => exact hmore

variable (kind Seen) in
/-- With that many parts of its snapshot to go, the refresh has seen the same so far. -/
inductive Gathered (shelves : Shelves) (s : Runtime σ) : ℕ → Prop
  | more {views : List (View Rule Upstream)} {reading : Reading} {left : ℕ}
      (hfetching : s.Fetching reading)
      (hseen : Seen s.cp views reading) (hshows : ∀ view ∈ views, view.Shows shelves)
      (hleft : views.length + (left + 1) = kind.parts) : Gathered shelves s (left + 1)
  | whole {views : List (View Rule Upstream)} {snapshot : Snapshot}
      (hpoll : s.poll = .refreshing (.done (.ok snapshot)))
      (hseen : Seen s.cp views (.done (.ok snapshot))) (hshows : ∀ view ∈ views, view.Shows shelves) :
      Gathered shelves s 0

/-! ### Afterwards -/

variable (store Good Seen) in
/-- The cache is up to date with what the store has, and so will be what the refresh under way
leaves there. -/
structure UpToDate (shelves : Shelves) (s : Runtime σ) : Prop where
  good : Good s.cp
  kept : store.shelves s.cp = shelves
  fills : shelves.Fill s.cache
  shows : ∀ reading, s.poll = .refreshing reading →
    ∃ views, Seen s.cp views reading ∧ ∀ view ∈ views, view.Shows shelves

/-- One more moment that shows the same. -/
theorem shows_concat (hsettles : store.Settles kind Good Seen) {cp : σ}
    {views : List (View Rule Upstream)} (hshows : ∀ view ∈ views, view.Shows shelves)
    (hgood : Good cp) (hkept : store.shelves cp = shelves) :
    ∀ view ∈ views ++ [store.view cp], view.Shows shelves := by
  rw [List.forall_mem_append, List.forall_mem_singleton]
  exact ⟨hshows, hkept, fun n hn => hkept ▸ hsettles.unlisted cp n hgood hn⟩

/-- What the parts that were read before have seen. -/
theorem UpToDate.seen (hstore : store.OfKind kind Good Fits Seen)
    (h : UpToDate store Good Seen shelves s) {reading : Reading} (hfetching : s.Fetching reading) :
    ∃ views, Seen s.cp views reading ∧ ∀ view ∈ views, view.Shows shelves := by
  cases hfetching with
  | begins hpoll => exact ⟨[], hstore.begins s.cp, by simp⟩
  | goesOn hpoll hmore => exact h.shows reading hpoll

theorem UpToDate.fetched (hstore : store.OfKind kind Good Fits Seen)
    (hsettles : store.Settles kind Good Seen) (h : UpToDate store Good Seen shelves s)
    {reading : Reading} (hfetching : s.Fetching reading) (failure : Option Failure) :
    UpToDate store Good Seen shelves (s.advance store reading failure).2 := by
  obtain ⟨views, hseen, hshows⟩ := h.seen hstore hfetching
  have hshows' := shows_concat hsettles hshows h.good h.kept
  refine ⟨h.good, h.kept, h.fills, fun reading' hpoll => ?_⟩
  cases hpoll
  cases failure with
  | some e => exact ⟨_, hstore.failed _ _ e, hshows'⟩
  | none =>
    exact ⟨_, hstore.read s.cp views reading h.good (more_of_fetching hfetching) hseen, hshows'⟩

/-- What a snapshot leaves in the cache whose parts all saw the same. -/
theorem fills_of_whole (hstore : store.OfKind kind Good Fits Seen)
    (hsettles : store.Settles kind Good Seen) {cp : σ} {views : List (View Rule Upstream)}
    {snapshot : Snapshot}
    (hseen : Seen cp views (.done (.ok snapshot))) (hshows : ∀ view ∈ views, view.Shows shelves) :
    shelves.Fill snapshot := by
  rw [← hsettles.whole cp views snapshot shelves hseen hshows]
  exact hstore.fills cp views snapshot hseen

/-- Whatever a refresh leaves in the cache is up to date. -/
theorem upToDate_installed (hgood : Good s.cp) (hshelves : store.shelves s.cp = shelves)
    {snapshot : CplResult Snapshot} (hpoll : s.poll = .refreshing (.done snapshot))
    (hfills : shelves.Fill (s.cache.refresh snapshot).2) (now : ℕ) :
    UpToDate store Good Seen shelves (s.install setup now).2 := by
  unfold Runtime.install
  simp only [hpoll]
  refine ⟨hgood, hshelves, hfills, fun reading hreading => ?_⟩
  dsimp only at hreading
  split_ifs at hreading

/-- The next part sees the same. -/
theorem Gathered.fetch (hstore : store.OfKind kind Good Fits Seen)
    (hsettles : store.Settles kind Good Seen) {left : ℕ} (h : Gathered kind Seen shelves s (left + 1))
    (hgood : Good s.cp) (hshelves : store.shelves s.cp = shelves) :
    Gathered kind Seen shelves (s.fetch store none).2 left := by
  cases h with
  | @more views reading _ hfetching hseen hshows hleft =>
    have hmore := more_of_fetching hfetching
    have hread := hstore.read s.cp views reading hgood hmore hseen
    have hshows' := shows_concat hsettles hshows hgood hshelves
    rw [fetch_of_fetching hfetching]
    cases left with
    | zero =>
      obtain ⟨snapshot, hsnapshot⟩ := hsettles.ends s.cp views reading hgood hmore hseen hleft
      rw [hsnapshot] at hread
      exact .whole (congrArg Poll.refreshing hsnapshot) hread hshows'
    | succ left =>
      have hmore' := hsettles.goesOn s.cp views reading hgood hmore hseen (by omega)
      refine .more (.goesOn rfl hmore') hread hshows' ?_
      rw [List.length_append, List.length_singleton]
      omega

/-! ### Steps -/

variable [Text.UnicodeTables]

/-- The shelves stay while nothing is edited. -/
theorem quiet_shelves (hstore : store.OfKind kind Good Fits Seen) (hgood : Good s.cp) {i : Input ω}
    (hquiet : i.Quiet) : Good (s.step store setup i).2.cp ∧
      store.shelves (s.step store setup i).2.cp = store.shelves s.cp := by
  have hopened : Booked store Good (.opened (store.shelves s.cp)) s.cp := ⟨hgood, rfl, rfl⟩
  have hbooked : Booked store Good _ (s.step store setup i).2.cp :=
    step_booked hstore.keepsShelves hopened (quiet_fits hquiet)
  exact ⟨hbooked.good, hbooked.kept.trans (quiet_kept hquiet _ _)⟩

/-- Only the background task moves the poll and the cache. -/
theorem step_poll {i : Input ω} (hquiet : i.Quiet) (hpoll : i.ofPoll = false) :
    (s.step store setup i).2.poll = s.poll ∧ (s.step store setup i).2.cache = s.cache := by
  have hrun : StepRun store setup s i (s.step store setup i) := step_run i
  generalize s.step store setup i = r at hrun ⊢
  cases hrun with
  | fetched | installed | ingested => cases hpoll
  | restarted boot => exact hquiet.elim
  | _ => exact ⟨rfl, rfl⟩

/-- Other tasks do not disturb it. -/
theorem Gathered.frame (hstore : store.OfKind kind Good Fits Seen) {left : ℕ}
    (h : Gathered kind Seen shelves s left) {i : Input ω} (hquiet : i.Quiet)
    (hpoll : i.ofPoll = false) :
    Gathered kind Seen shelves (s.step store setup i).2 left := by
  have hsame : (s.step store setup i).2.poll = s.poll := (step_poll hquiet hpoll).1
  have hwrites : store.Writes s.cp (s.step store setup i).2.cp :=
    step_writes fun boot hi => by subst hi; exact hquiet
  cases h with
  | more hfetching hseen hshows hleft =>
    refine .more ?_ (hstore.writes _ _ _ _ hwrites hseen) hshows hleft
    cases hfetching with
    | begins hsleeping => exact .begins (hsame.trans hsleeping)
    | goesOn hreading hmore => exact .goesOn (hsame.trans hreading) hmore
  | whole hdone hseen hshows =>
    exact .whole (hsame.trans hdone) (hstore.writes _ _ _ _ hwrites hseen) hshows

theorem UpToDate.step (hstore : store.OfKind kind Good Fits Seen)
    (hsettles : store.Settles kind Good Seen) (h : UpToDate store Good Seen shelves s) {i : Input ω}
    (hquiet : i.Quiet) : UpToDate store Good Seen shelves (s.step store setup i).2 := by
  have hgood : Good (s.step store setup i).2.cp := (quiet_shelves hstore h.good hquiet).1
  have hshelves : store.shelves (s.step store setup i).2.cp = shelves :=
    (quiet_shelves hstore h.good hquiet).2.trans h.kept
  have hrun : StepRun store setup s i (s.step store setup i) := step_run i
  by_cases hpoll : i.ofPoll = false
  · have hsame : (s.step store setup i).2.poll = s.poll := (step_poll hquiet hpoll).1
    have hcache : (s.step store setup i).2.cache = s.cache := (step_poll hquiet hpoll).2
    have hwrites : store.Writes s.cp (s.step store setup i).2.cp :=
      step_writes fun boot hi => by subst hi; exact hquiet
    refine ⟨hgood, hshelves, hcache ▸ h.fills, fun reading hreading => ?_⟩
    obtain ⟨views, hseen, hshows⟩ := h.shows reading (hsame.symm.trans hreading)
    exact ⟨views, hstore.writes _ _ _ _ hwrites hseen, hshows⟩
  · generalize s.step store setup i = r at hrun hgood hshelves ⊢
    cases hrun with
    | idle => exact h
    | fetched failure hfetching => exact h.fetched hstore hsettles hfetching failure
    | @installed snapshot now hdone =>
      refine upToDate_installed h.good h.kept hdone ?_ now
      cases snapshot with
      | error e => exact h.fills
      | ok snapshot =>
        obtain ⟨views, hseen, hshows⟩ := h.shows _ hdone
        exact fills_of_whole hstore hsettles hseen hshows
    | ingested net world now hready =>
      unfold Runtime.ingest at hgood hshelves ⊢
      simp only [hready] at hgood hshelves ⊢
      exact ⟨hgood, hshelves, h.fills, fun reading hreading => by cases hreading⟩
    | unparsed harrives | denied harrives | asked harrives | allowed harrives =>
      cases harrives <;> exact absurd rfl hpoll
    | _ => exact absurd rfl hpoll

/-! ### Runs -/

theorem upToDate_run (hstore : store.OfKind kind Good Fits Seen)
    (hsettles : store.Settles kind Good Seen) (h : UpToDate store Good Seen shelves s)
    {is : List (Input ω)} (hquiet : ∀ i ∈ is, i.Quiet) :
    UpToDate store Good Seen shelves ((Runtime.machine store setup).exec s is) :=
  Machine.invariant _ (UpToDate store Good Seen shelves) Input.Quiet
    (fun _ _ hi h => h.step hstore hsettles hi) is s hquiet h

/-- The background task goes through the rest of a refresh, among everything else that runs. -/
theorem gathered_run (hstore : store.OfKind kind Good Fits Seen)
    (hsettles : store.Settles kind Good Seen) {now left : ℕ} {is : List (Input ω)}
    (hquiet : ∀ i ∈ is, i.Quiet)
    (hrefresh : is.filter Input.ofPoll = List.replicate left (.fetch none) ++ [.install now])
    (hgood : Good s.cp) (hshelves : store.shelves s.cp = shelves)
    (h : Gathered kind Seen shelves s left) :
    UpToDate store Good Seen shelves ((Runtime.machine store setup).exec s is) := by
  induction is generalizing left s with
  | nil => cases left <;> cases hrefresh
  | cons i is ih =>
    rw [List.forall_mem_cons] at hquiet
    obtain ⟨hi, his⟩ := hquiet
    have hgood' : Good (s.step store setup i).2.cp := (quiet_shelves hstore hgood hi).1
    have hshelves' : store.shelves (s.step store setup i).2.cp = shelves :=
      (quiet_shelves hstore hgood hi).2.trans hshelves
    rw [Machine.exec_cons]
    cases hpoll : i.ofPoll with
    | false =>
      rw [List.filter_cons_of_neg (by simp [hpoll])] at hrefresh
      exact ih his hrefresh hgood' hshelves' (h.frame hstore hi hpoll)
    | true =>
      rw [List.filter_cons_of_pos hpoll] at hrefresh
      cases left with
      | succ left =>
        rw [List.replicate_succ, List.cons_append, List.cons.injEq] at hrefresh
        obtain ⟨rfl, hrefresh⟩ := hrefresh
        exact ih his hrefresh hgood' hshelves' (h.fetch hstore hsettles hgood hshelves)
      | zero =>
        rw [List.replicate_zero, List.nil_append, List.cons.injEq] at hrefresh
        obtain ⟨rfl, -⟩ := hrefresh
        cases h with
        | whole hdone hseen hshows =>
          refine upToDate_run hstore hsettles (upToDate_installed hgood hshelves hdone ?_ now) his
          exact fills_of_whole hstore hsettles hseen hshows

variable (store setup) in
/-- After a run `is` that left the background task asleep, a refresh without failures among other
inputs, and more inputs: as long as there are no edits and no restarts, the policies are exactly
what the store has for each account, rule ids included. -/
def Propagates (kind : StoreKind) (cp : σ) (boot : Boot ω) (is js ks : List (Input ω)) : Prop :=
  let m := Runtime.machine store setup
  let before := m.exec (Runtime.start store setup cp boot).2 is
  let after := m.exec before (js ++ ks)
  before.poll = .sleeping → (∀ i ∈ js ++ ks, i.Quiet) →
  (∃ now, js.filter Input.ofPoll = List.replicate kind.parts (.fetch none) ++ [.install now]) →
  store.shelves after.cp = store.shelves before.cp ∧ (store.shelves after.cp).Fill after.cache

variable (setup) in
theorem propagates (hstore : store.OfKind kind Good Fits Seen)
    (hsettles : store.Settles kind Good Seen) {cp : σ} (hgood : Good cp) (boot : Boot ω)
    (is js ks : List (Input ω)) (hfits : ∀ i ∈ is, i.Fits Fits) (hparts : 0 < kind.parts) :
    Propagates store setup kind cp boot is js ks := by
  unfold Propagates
  dsimp only
  have hruled := (run_ruled setup hstore hgood boot is hfits).good
  unfold Runtime.docketed at hruled
  rw [Machine.observe_exec] at hruled
  change Good ((Runtime.machine store setup).exec (Runtime.start store setup cp boot).2 is).cp
    at hruled
  generalize (Runtime.machine store setup).exec (Runtime.start store setup cp boot).2 is = before
    at hruled ⊢
  rintro hsleeping hquiet ⟨now, hrefresh⟩
  rw [List.forall_mem_append] at hquiet
  have hgathered : Gathered kind Seen (store.shelves before.cp) before kind.parts := by
    obtain ⟨left, hleft⟩ := Nat.exists_eq_succ_of_ne_zero hparts.ne'
    rw [hleft]
    exact .more (.begins hsleeping) (hstore.begins before.cp) (by simp) (by simp [hleft])
  have hsettled : UpToDate store Good Seen (store.shelves before.cp)
      ((Runtime.machine store setup).exec before (js ++ ks)) := by
    rw [Machine.exec_append]
    exact upToDate_run hstore hsettles
      (gathered_run hstore hsettles hquiet.1 hrefresh hruled rfl hgathered) hquiet.2
  exact ⟨hsettled.kept, hsettled.kept ▸ hsettled.fills⟩

end

/-- Every edit takes effect with the next refresh that goes through without another edit or a
restart in between, over either store and with whatever else runs between the parts of its
snapshot: from then on, until the next edit or restart, each account is served by exactly the rules
and the upstream that the store has for it, ids included. -/
theorem edits_take_effect [Text.UnicodeTables] (setup : Setup) :
    (∀ (cp : InMemControlPlane) (boot : Boot ℤ) (is js ks : List (Input ℤ)),
      Propagates InMemControlPlane.store setup .memory cp boot is js ks) ∧
    ∀ (db : PostgresControlPlane) (tables : BlocklistTables)
      (boot : Boot (ℤ × BlocklistTables.IterationOrder)) (is js ks : List (Input _)),
      PostgresControlPlane.Reachable db → (∀ i ∈ is, i.Fits fun news => news.length ≤ 2 ^ 31) →
      Propagates PostgresControlPlane.store setup .tables (db, tables) boot is js ks := by
  refine ⟨fun cp boot is js ks => ?_, fun db tables boot is js ks hdb hfits => ?_⟩
  · exact propagates setup InMemControlPlane.store_ofKind InMemControlPlane.store_settles trivial
      boot is js ks (fun i _ => i.fits_of_forall fun _ => trivial) Nat.one_pos
  · exact propagates setup PostgresControlPlane.store_ofKind PostgresControlPlane.store_settles hdb
      boot is js ks hfits (by decide)

section

attribute [local instance] Text.asciiTables

def calmRefresh {ω : Type} (parts : ℕ) : List (Input ω) :=
  .dot 1 none askB :: (List.replicate parts (.fetch none) ++ [.install 0])

theorem edits_take_effect_late_edit : ∃ order : BlocklistTables.IterationOrder,
    (let m := Runtime.machine InMemControlPlane.store plainSetup
     let s := m.exec (Runtime.start InMemControlPlane.store plainSetup .default (calmBoot 0)).2
       (lateEdit ++ calmRefresh 1 ++ [.dot 2 none askB])
     (InMemControlPlane.store.shelves s.cp).Fill s.cache) ∧
    let m := Runtime.machine PostgresControlPlane.store plainSetup
    let s := m.exec (Runtime.start PostgresControlPlane.store plainSetup
      (Database.empty, BlocklistTables.empty) (calmBoot (0, order))).2
      (lateEdit ++ calmRefresh 3 ++ [.dot 2 none askB])
    (PostgresControlPlane.store.shelves s.cp).Fill s.cache := by
  obtain ⟨order⟩ := BlocklistTables.iterationOrder_nonempty
  have hmemory := (edits_take_effect plainSetup).1 .default (calmBoot 0) lateEdit (calmRefresh 1)
    [.dot 2 none askB] rfl (by simp [calmRefresh, Input.Quiet]) ⟨0, rfl⟩
  have htables := (edits_take_effect plainSetup).2 Database.empty BlocklistTables.empty
    (calmBoot (0, order)) lateEdit (calmRefresh 3) [.dot 2 none askB] .empty
    (by simp [lateEdit, Input.Fits, Http.Request.Fits]) rfl (by simp [calmRefresh, Input.Quiet])
    ⟨0, rfl⟩
  rw [← Machine.exec_append] at hmemory htables
  exact ⟨order, hmemory.2, htables.2⟩

end

end Brdns
