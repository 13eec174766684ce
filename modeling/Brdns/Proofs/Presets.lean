import Brdns.Proofs.InForce

/-! The presets of the management API. Every start seeds them, and no account can touch them: over
either store they are the built-in ones, each once, and in the tables under the same ids for good. -/

namespace Brdns

open Lib Lib.Fold Database

/-! ### Stores that keep their presets -/

structure Stocked (ups : List Upstream) : Prop where
  submitted : ups.map Upstream.submitted = presetUpstreamsDefault
  ids : (ups.map Upstream.id).Nodup
  global : ∀ up ∈ ups, up.isPreset = true ∧ up.accountId = none

/-- A start stocks the presets once, and nothing else touches them. -/
structure Store.Stocks {σ ω : Type} (store : Store σ ω) (Good : σ → Prop) : Prop where
  connect : ∀ s, Good s → Good (store.connect s) ∧
    ∃ ups, store.presetUpstreams (store.connect s) = .ok ups ∧ Stocked ups
  reconnect : ∀ s ups, Good s → store.presetUpstreams s = .ok ups → Stocked ups →
    store.presetUpstreams (store.connect s) = .ok ups
  writes : ∀ s s', Good s → store.Writes s s' →
    Good s' ∧ store.presetUpstreams s' = store.presetUpstreams s

/-! ### In memory -/

namespace InMemControlPlane

theorem presets_writes {s s' : InMemControlPlane} (h : InMemControlPlane.store.Writes s s') :
    s'.presets = s.presets := by
  have haccount (n : Text) : (s.getOrCreate n).2.presets = s.presets := by
    unfold getOrCreate
    cases s.accounts.lookup n <;> rfl
  cases h with
  | managed h =>
    cases h with
    | none => rfl
    | createAccount n => exact haccount n
    | replaceRules n news =>
      change (s.replaceRules n news).2.presets = _
      rw [replaceRules_eq]
    | replaceUpstreams n news =>
      change (s.replaceUpstreams n news).2.presets = _
      rw [replaceUpstreams_eq]
  | recordQuota n ruleId limitCount window now =>
    obtain ⟨quota, hquota⟩ := (s.recordQuota_run n ruleId limitCount window now).frame
    change (s.recordQuota n ruleId limitCount window now).2.presets = _
    rw [hquota]
  | replaceCategories h =>
    cases h
    rfl

theorem default_stocked : Stocked InMemControlPlane.default.presets := by
  refine ⟨?_, ?_, ?_⟩ <;> decide +kernel

theorem store_stocks : InMemControlPlane.store.Stocks fun s =>
    s.presets = InMemControlPlane.default.presets where
  connect _ _ := ⟨rfl, _, rfl, default_stocked⟩
  reconnect _ _ hgood hups _ := hups ▸ congrArg Except.ok hgood.symm
  writes _ _ hgood h := ⟨(presets_writes h).trans hgood, congrArg Except.ok (presets_writes h)⟩

end InMemControlPlane

/-! ### In the tables -/

namespace PostgresControlPlane

/-- The rows of the presets, and of nothing else, belong to no account. -/
theorem presetRows_eq {db : Database} (h : SoundUpstreams db) :
    db.upstreams.select UpstreamCols.isPreset =
      db.upstreams.select fun u => u.accountId = none := by
  refine List.filter_congr fun row hrow => ?_
  rw [(h row hrow).preset]
  cases haccount : row.cols.accountId <;> simp [haccount]

theorem presetRows_replaceUpstreams {db : PostgresControlPlane} (h : SoundUpstreams db) (n : Text)
    (news : List NewUpstream) : (replaceUpstreams db n news).2.upstreams.select UpstreamCols.isPreset =
      db.upstreams.select UpstreamCols.isPreset := by
  rw [presetRows_eq (h.replaceUpstreams n news), presetRows_eq h]
  have haccount := upstreams_accountIdOrCreate db n
  have hput := replaceUpstreams_put db n news
  generalize replaceUpstreams db n news = r at hput ⊢
  cases hput with
  | refused => rw [haccount]
  | rolledBack tx =>
    rw [← haccount]
    rfl
  | stored hrow hadded hread =>
    have hreplaced := Table.select_replaced hadded.upstreams (allotted_upstream_rows hread).1 none
    rw [if_neg (by simp), haccount] at hreplaced
    exact hreplaced

theorem presetRows_write {db : PostgresControlPlane} (h : SoundUpstreams db)
    (w : ControlPlane.Write) : (controlPlane.write db w).upstreams.select UpstreamCols.isPreset =
      db.upstreams.select UpstreamCols.isPreset := by
  cases w with
  | createAccount n =>
    exact congrArg (List.filter _) (congrArg Table.rows (upstreams_accountIdOrCreate db n))
  | replaceRules n news => exact congrArg (List.filter _) (upstreams_replaceRules db n news)
  | replaceUpstreams n news => exact presetRows_replaceUpstreams h n news
  | recordQuota n ruleId limitCount window now =>
    exact congrArg (List.filter _)
      (congrArg Table.rows (upstreams_recordQuota db n ruleId limitCount window now))

def Holding (db : Database) (presets : List NewUpstream) : Prop :=
  List.Forall₂ (fun row preset => upstreamCols none true preset = .ok row.cols)
    (db.upstreams.select UpstreamCols.isPreset) presets

theorem Holding.of_rows {db db' : Database} {presets : List NewUpstream} (h : Holding db presets)
    (hrows : db'.upstreams.rows = db.upstreams.rows) : Holding db' presets := by
  unfold Holding Table.select at h ⊢
  rw [hrows]
  exact h

theorem upstreamCols_name {accountId : Option ℤ} {isPreset : Bool} {new : NewUpstream}
    {cols : UpstreamCols} (h : upstreamCols accountId isPreset new = .ok cols) :
    cols.name.val = new.name := by
  obtain ⟨cols', hcols', -, -, hname, -⟩ :=
    upstreamCols_spec accountId isPreset (upstreamCols_nulFree h)
  cases h.symm.trans hcols'
  exact hname

theorem insertUpstream_preset {db : Database} {cols : UpstreamCols}
    (hcheck : brokenCheck cols.checks = none) (haccount : cols.accountId = none)
    (hfree : db.upstreamConflict cols = none) : ∃ id db', db.insertUpstream cols = (.ok id, db') ∧
      db'.upstreams = db.upstreams.insert cols := by
  unfold insertUpstream
  dsimp only
  split
  · next hbroken =>
    rw [hcheck] at hbroken
    cases hbroken
  · split
    · next hconflict =>
      rw [hfree] at hconflict
      cases hconflict
    · split
      · exact ⟨_, _, rfl, rfl⟩
      · next hfkey =>
        rw [haccount] at hfkey
        exact absurd (fun id hid => by cases hid) hfkey

/-- A preset of a new name gets a row of its own. -/
theorem seedPreset_new {db : Database} {done : List NewUpstream} (h : Holding db done)
    {preset : NewUpstream} (hnul : NulFreeUpstream preset)
    (hname : preset.name ∉ done.map NewUpstream.name) :
    (seedPreset db preset).1 = .ok () ∧ Holding (seedPreset db preset).2 (done ++ [preset]) := by
  obtain ⟨cols, hcols, haccount, hpreset, hcname, hcheck, -⟩ := upstreamCols_spec none true hnul
  have hfree : db.upstreamConflict cols = none := by
    refine List.findSome?_eq_none_iff.mpr fun row hrow => ?_
    unfold UpstreamCols.conflict
    rw [if_neg (by simp [haccount]), if_neg]
    rintro ⟨-, hispreset, hsame⟩
    obtain ⟨preset', hmem, hcols'⟩ :=
      forall₂_mem_right h.flip (List.mem_filter.mpr ⟨hrow, hispreset⟩)
    refine hname (List.mem_map.mpr ⟨preset', hmem, ?_⟩)
    rw [← upstreamCols_name hcols', ← hcname, hsame]
  obtain ⟨id, db', hinsert, hups⟩ := insertUpstream_preset hcheck haccount hfree
  have hselect : db'.upstreams.select UpstreamCols.isPreset =
      db.upstreams.select UpstreamCols.isPreset ++ [⟨db.upstreams.serial + 1, cols⟩] := by
    rw [hups]
    unfold Table.select Table.insert
    rw [List.filter_append]
    simp [hpreset]
  unfold seedPreset insertUpstreamUnlessConflict
  rw [hcols]
  dsimp only
  rw [hfree, hinsert]
  refine ⟨rfl, ?_⟩
  unfold Holding
  rw [hselect]
  exact List.rel_append h (.cons hcols .nil)

/-- A preset that is there is left alone. -/
theorem seedPreset_again {db : Database} {presets : List NewUpstream} (h : Holding db presets)
    {preset : NewUpstream} (hpreset : preset ∈ presets) : (seedPreset db preset).1 = .ok () ∧
      (seedPreset db preset).2.upstreams.rows = db.upstreams.rows := by
  obtain ⟨row, hrow, hcols⟩ := forall₂_mem_right h hpreset
  obtain ⟨hrow, hispreset⟩ := List.mem_filter.mp hrow
  unfold seedPreset insertUpstreamUnlessConflict
  rw [hcols]
  dsimp only
  cases hconflict : db.upstreamConflict row.cols with
  | some name => exact ⟨rfl, rfl⟩
  | none =>
    have hself := List.findSome?_eq_none_iff.mp hconflict row hrow
    unfold UpstreamCols.conflict at hself
    split_ifs at hself with howned hsame
    exact absurd ⟨hispreset, hispreset, rfl⟩ hsame

theorem seedPresets_new (todo : List NewUpstream) {db : Database} {done : List NewUpstream}
    (h : Holding db done) (hnul : ∀ preset ∈ todo, NulFreeUpstream preset)
    (hnames : ((done ++ todo).map NewUpstream.name).Nodup) :
    Holding (seedPresets todo db).2 (done ++ todo) := by
  induction todo generalizing db done with
  | nil =>
    rw [List.append_nil]
    exact h
  | cons preset todo ih =>
    obtain ⟨hpreset, htodo⟩ := List.forall_mem_cons.mp hnul
    have hname : preset.name ∉ done.map NewUpstream.name := by
      intro hmem
      rw [List.map_append, List.nodup_append] at hnames
      exact hnames.2.2 _ hmem _ List.mem_cons_self rfl
    obtain ⟨hok, hholding⟩ := seedPreset_new h hpreset hname
    unfold seedPresets
    generalize seedPreset db preset = seeded at hok hholding ⊢
    obtain ⟨result, db'⟩ := seeded
    subst hok
    rw [List.append_cons] at hnames ⊢
    exact ih hholding htodo hnames

theorem seedPresets_again (todo : List NewUpstream) {db : Database} {presets : List NewUpstream}
    (h : Holding db presets) (htodo : todo ⊆ presets) :
    (seedPresets todo db).2.upstreams.rows = db.upstreams.rows := by
  induction todo generalizing db with
  | nil => rfl
  | cons preset todo ih =>
    obtain ⟨hpreset, htodo⟩ := List.cons_subset.mp htodo
    obtain ⟨hok, hrows⟩ := seedPreset_again h hpreset
    unfold seedPresets
    generalize seedPreset db preset = seeded at hok hrows ⊢
    obtain ⟨result, db'⟩ := seeded
    subst hok
    exact (ih (h.of_rows hrows) htodo).trans hrows

/-! ### Over whole histories -/

theorem presets_nulFree : ∀ preset ∈ presetUpstreamsDefault, NulFreeUpstream preset := by
  simp [presetUpstreamsDefault, NulFreeUpstream, NulFree]

theorem presets_names : (presetUpstreamsDefault.map NewUpstream.name).Nodup := by decide +kernel

theorem connect_holding {db : Database}
    (h : Holding db [] ∨ Holding db presetUpstreamsDefault) :
    Holding (connect db).2 presetUpstreamsDefault := by
  rcases h with hnone | hall
  · exact seedPresets_new presetUpstreamsDefault hnone presets_nulFree presets_names
  · exact hall.of_rows (seedPresets_again _ hall (List.Subset.refl _))

/-- Before the first connection there are no presets, and then all of them. -/
theorem Reachable.presets {db : PostgresControlPlane} (h : Reachable db) :
    Holding db [] ∨ Holding db presetUpstreamsDefault := by
  induction h with
  | empty => exact .inl .nil
  | connect _ ih => exact .inr (connect_holding ih)
  | @write db w hdb ih =>
    unfold Holding at ih ⊢
    rw [presetRows_write hdb.soundUpstreams w]
    exact ih
  | skip gap _ ih => exact ih

theorem holding_reads {rows : List (Row UpstreamCols)} {presets : List NewUpstream}
    (h : List.Forall₂ (fun row preset => upstreamCols none true preset = .ok row.cols) rows presets) :
    ∃ ups, List.Forall₂ (fun row up => upstreamFromRow row = .ok up) rows ups ∧
      ups.map Upstream.submitted = presets ∧ ups.map Upstream.id = rows.map Row.id ∧
      ∀ up ∈ ups, up.isPreset = true ∧ up.accountId = none := by
  induction h with
  | nil => exact ⟨[], .nil, rfl, rfl, by simp⟩
  | @cons row preset rows presets hcols _ ih =>
    obtain ⟨ups, hread, hsubmitted, hids, hglobal⟩ := ih
    obtain ⟨cols, hcols', -, -, -, -, hrow⟩ := upstreamCols_spec none true (upstreamCols_nulFree hcols)
    cases hcols.symm.trans hcols'
    refine ⟨_ :: ups, .cons (hrow row.id) hread, ?_, ?_, ?_⟩
    · rw [List.map_cons, hsubmitted]
      rfl
    · rw [List.map_cons, List.map_cons, hids]
    · exact List.forall_mem_cons.mpr ⟨⟨rfl, rfl⟩, hglobal⟩

theorem Holding.listed {db : Database} (h : Holding db presetUpstreamsDefault) :
    ∃ ups, presetUpstreams db = .ok ups ∧ Stocked ups := by
  obtain ⟨ups, hread, hsubmitted, hids, hglobal⟩ := holding_reads h
  refine ⟨ups, mapM_ok_iff.mpr hread, hsubmitted, ?_, hglobal⟩
  rw [hids]
  exact List.pairwise_map.mpr ((db.upstreams.ordered.filter _).imp fun hlt => hlt.ne)

theorem store_stocks : PostgresControlPlane.store.Stocks fun s => Reachable s.1 where
  connect _ hgood := ⟨.connect hgood, (connect_holding hgood.presets).listed⟩
  reconnect s ups hgood hups hstocked := by
    rcases hgood.presets with hnone | hall
    · have hempty : presetUpstreams s.1 = .ok [] := by
        unfold presetUpstreams
        rw [List.forall₂_nil_right_iff.mp hnone]
        rfl
      cases hempty.symm.trans hups
      have hsubmitted := hstocked.submitted
      cases hsubmitted
    · rw [← hups]
      change presetUpstreams (connect s.1).2 = presetUpstreams s.1
      unfold presetUpstreams Table.select connect
      rw [seedPresets_again _ hall (List.Subset.refl _)]
  writes s s' hgood h := by
    rcases write_of_writes h with hsame | ⟨w, hwrite⟩
    · rw [hsame]
      exact ⟨hgood, congrArg presetUpstreams hsame⟩
    · rw [hwrite]
      refine ⟨.write w hgood, ?_⟩
      change presetUpstreams s'.1 = presetUpstreams s.1
      unfold presetUpstreams
      rw [hwrite, presetRows_write hgood.soundUpstreams w]

end PostgresControlPlane

/-! ### Runs -/

section

variable [Text.UnicodeTables]

/-- The management API lists the same presets after any run. -/
def PresetsKept {σ ω : Type} (store : Store σ ω) (setup : Setup) (cp : σ) (boot : Boot ω) : Prop :=
  ∃ ups, Stocked ups ∧ ∀ is : List (Input ω),
    (Http.handle store.toManagementStore (Runtime.served store setup cp boot is) .listPresets).1 =
      .ok ⟨200, .upstreams ups⟩

theorem Store.Stocks.kept {σ ω : Type} {store : Store σ ω} {Good : σ → Prop}
    (h : store.Stocks Good) (setup : Setup) {cp : σ} (hgood : Good cp) (boot : Boot ω) :
    PresetsKept store setup cp boot := by
  obtain ⟨hconnected, ups, hups, hstocked⟩ := h.connect cp hgood
  refine ⟨ups, hstocked, fun is => ?_⟩
  have hkept : Good (Runtime.served store setup cp boot is) ∧
      store.presetUpstreams (Runtime.served store setup cp boot is) = .ok ups := by
    refine run_keeps (fun s => Good s ∧ store.presetUpstreams s = .ok ups) ?_ ?_ ?_ is
    · rintro s s' hwrites ⟨hs, hsame⟩
      obtain ⟨hs', hups'⟩ := h.writes s s' hs hwrites
      exact ⟨hs', hups'.trans hsame⟩
    · rintro s ⟨hs, hsame⟩
      exact ⟨(h.connect s hs).1, h.reconnect s ups hs hsame hstocked⟩
    · obtain ⟨hs, hups'⟩ := h.writes _ _ hconnected (start_writes _ boot)
      exact ⟨hs, hups'.trans hups⟩
  change Http.answer _ (store.presetUpstreams _) = _
  rw [hkept.2]
  rfl

/-- Whatever accounts do, and however often the program is started again, the presets listed are
the built-in ones in their order, each once and always under the same id. -/
theorem presets_kept (setup : Setup) :
    (∀ boot : Boot ℤ, PresetsKept InMemControlPlane.store setup .default boot) ∧
    ∀ (db : PostgresControlPlane) (tables : BlocklistTables)
      (boot : Boot (ℤ × BlocklistTables.IterationOrder)), PostgresControlPlane.Reachable db →
      PresetsKept PostgresControlPlane.store setup (db, tables) boot :=
  ⟨fun boot => InMemControlPlane.store_stocks.kept setup rfl boot,
    fun _ _ boot hdb => PostgresControlPlane.store_stocks.kept setup hdb boot⟩

end

section

attribute [local instance] Text.asciiTables

theorem presets_kept_empty : ∃ order : BlocklistTables.IterationOrder,
    PresetsKept PostgresControlPlane.store plainSetup (Database.empty, BlocklistTables.empty)
      (calmBoot (0, order)) := by
  obtain ⟨order⟩ := BlocklistTables.iterationOrder_nonempty
  exact ⟨order, (presets_kept plainSetup).2 _ _ _ .empty⟩

end

end Brdns
