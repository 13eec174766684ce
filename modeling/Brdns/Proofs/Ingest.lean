import Brdns.Proofs.Blocklist

/-! Ingestion over runs: when a refresh takes effect, what a failed feed can change, and that the
index always answers as one freshly loaded from the store. -/

namespace Brdns

open Lib CategoryMap

namespace Blocklist

variable {σ ω : Type}

inductive IngestRun (store : CategoryStore σ ω) (feeds : List Feed) (net : Network) (world : ω)
    (cp : σ) (index : CategoryIndex) : CplResult ℕ × σ × CategoryIndex → Prop
  | noClient {e : Failure} (hclient : net.client = .error e) :
      IngestRun store feeds net world cp index (.error e, cp, index)
  | skipped (hclient : net.client = .ok ())
      (hlen : (fetchedDomains feeds net).card = index.len) :
      IngestRun store feeds net world cp index (.ok (fetchedDomains feeds net).card, cp, index)
  | notStored {e : Failure} (hclient : net.client = .ok ())
      (hlen : (fetchedDomains feeds net).card ≠ index.len)
      (hstore : store.replaceCategories cp (merge feeds net) world = .error e) :
      IngestRun store feeds net world cp index (.error e, cp, index)
  | applied {cp' : σ} (hclient : net.client = .ok ())
      (hlen : (fetchedDomains feeds net).card ≠ index.len)
      (hstore : store.replaceCategories cp (merge feeds net) world = .ok cp') :
      IngestRun store feeds net world cp index
        (.ok (fetchedDomains feeds net).card, cp', merge feeds net)

theorem ingest_run (store : CategoryStore σ ω) (feeds : List Feed) (net : Network) (world : ω)
    (cp : σ) (index : CategoryIndex) :
    IngestRun store feeds net world cp index (ingest store feeds net world cp index) := by
  unfold ingest
  cases hclient : net.client with
  | error e => exact .noClient hclient
  | ok _ =>
    simp only [merge_len]
    split_ifs with hlen
    · exact .skipped hclient hlen
    · split
      · next e hstore => exact .notStored hclient hlen hstore
      · next cp' hstore => exact .applied hclient hlen hstore

/-! ### When a refresh takes effect -/

/-- The index answers, and the store holds, what the feeds just fetched give. -/
def InEffect (feeds : List Feed) (net : Network) (cp : InMemControlPlane)
    (index : CategoryIndex) : Prop :=
  (∀ qname category, index.contains qname category =
    CategoryIndex.contains (merge feeds net) qname category) ∧ cp.categories = merge feeds net

/-- A successful ingestion takes effect exactly when the number of fetched domains differs from
the number of indexed ones, or nothing was to change. -/
theorem ingest_in_effect_iff (feeds : List Feed) (net : Network) (now : ℤ)
    (cp : InMemControlPlane) (index : CategoryIndex) {n : ℕ}
    (hok : (ingest InMemControlPlane.categoryStore feeds net now cp index).1 = .ok n) :
    InEffect feeds net (ingest InMemControlPlane.categoryStore feeds net now cp index).2.1
        (ingest InMemControlPlane.categoryStore feeds net now cp index).2.2 ↔
      (fetchedDomains feeds net).card ≠ index.len ∨ InEffect feeds net cp index := by
  have hrun := ingest_run InMemControlPlane.categoryStore feeds net now cp index
  generalize ingest InMemControlPlane.categoryStore feeds net now cp index = r at hok hrun
  cases hrun with
  | noClient | notStored => cases hok
  | skipped _ hlen => simp [hlen]
  | applied _ hlen hstore =>
    cases hstore
    simp only [hlen, ne_eq, not_false_eq_true, true_or, iff_true]
    exact ⟨fun _ _ => rfl, rfl⟩

def oneFeed : List Feed := [⟨['f'], ['u'], .Plain, [['x']]⟩]

def twoFeeds : List Feed := oneFeed ++ [⟨['g'], ['v'], .Plain, [['x']]⟩]

/-- A network that delivers these bodies, in the order of the feeds. -/
def network (bodies : List (CplResult Text)) : Network where
  client := .ok ()
  body i := bodies.getD i (.error (.error "no such feed"))
  completion tasks := tasks
  completion_perm _ := List.Perm.refl _

def afterFirst (feeds : List Feed) (bodies : List (CplResult Text)) :
    InMemControlPlane × CategoryIndex :=
  (ingest InMemControlPlane.categoryStore feeds (network bodies) 0 InMemControlPlane.default ∅).2

theorem ingest_in_effect_iff_grown :
    InEffect twoFeeds (network [.ok ['a', '.', 'b'], .ok ['c', '.', 'd']])
        (ingest InMemControlPlane.categoryStore twoFeeds
          (network [.ok ['a', '.', 'b'], .ok ['c', '.', 'd']]) 0
          (afterFirst oneFeed [.ok ['a', '.', 'b']]).1
          (afterFirst oneFeed [.ok ['a', '.', 'b']]).2).2.1
        (ingest InMemControlPlane.categoryStore twoFeeds
          (network [.ok ['a', '.', 'b'], .ok ['c', '.', 'd']]) 0
          (afterFirst oneFeed [.ok ['a', '.', 'b']]).1
          (afterFirst oneFeed [.ok ['a', '.', 'b']]).2).2.2 :=
  (ingest_in_effect_iff twoFeeds _ 0 _ _ (n := 2) (by decide +kernel)).mpr
    (.inl (by decide +kernel))

/-- A feed that swaps its one domain for another is taken for unchanged. -/
theorem ingest_misses_same_size :
    ¬ ∀ (feeds : List Feed) (net : Network) (now : ℤ) (cp : InMemControlPlane)
      (index : CategoryIndex) (n : ℕ),
      (ingest InMemControlPlane.categoryStore feeds net now cp index).1 = .ok n →
      InEffect feeds net (ingest InMemControlPlane.categoryStore feeds net now cp index).2.1
        (ingest InMemControlPlane.categoryStore feeds net now cp index).2.2 := by
  intro h
  have heffect := (h oneFeed (network [.ok ['c', '.', 'd']]) 0
    (afterFirst oneFeed [.ok ['a', '.', 'b']]).1 (afterFirst oneFeed [.ok ['a', '.', 'b']]).2 1
    (by decide +kernel)).1 ['c', '.', 'd'] ['x']
  revert heffect
  decide +kernel

/-! ### Failed feeds -/

def Subnetwork (feeds : List Feed) (net' net : Network) : Prop :=
  ∀ i < feeds.length, ∀ body, net'.body i = .ok body → net.body i = .ok body

theorem Subnetwork.lists {feeds : List Feed} {net' net : Network}
    (h : Subnetwork feeds net' net) {i : ℕ} {feed : Feed} {d : Text}
    (hl : Lists feeds net' i feed d) : Lists feeds net i feed d := by
  obtain ⟨hfeed, body, hbody, hd⟩ := hl
  exact ⟨hfeed, body, h i (List.getElem?_eq_some_iff.mp hfeed).1 body hbody, hd⟩

theorem Subnetwork.tags {feeds : List Feed} {net' net : Network}
    (h : Subnetwork feeds net' net) (d : Text) :
    tags (merge feeds net') d ⊆ tags (merge feeds net) d := by
  intro c hc
  obtain ⟨i, feed, hl, hmem⟩ := gives_merge.mp (show Gives _ (d, c) from hc)
  exact gives_merge.mpr ⟨i, feed, h.lists hl, hmem⟩

theorem Subnetwork.card {feeds : List Feed} {net' net : Network}
    (h : Subnetwork feeds net' net) :
    (fetchedDomains feeds net').card ≤ (fetchedDomains feeds net).card := by
  refine Finset.card_le_card fun d hd => ?_
  obtain ⟨i, feed, hl⟩ := mem_fetchedDomains.mp hd
  exact mem_fetchedDomains.mpr ⟨i, feed, h.lists hl⟩

theorem tags_merge_of_card_zero {feeds : List Feed} {net : Network}
    (h : (fetchedDomains feeds net).card = 0) (d : Text) : tags (merge feeds net) d = ∅ := by
  refine Finset.eq_empty_of_forall_notMem fun c hc => ?_
  obtain ⟨i, feed, hl, -⟩ := gives_merge.mp (show Gives _ (d, c) from hc)
  have hd := mem_fetchedDomains.mpr ⟨i, feed, hl⟩
  rw [Finset.card_eq_zero.mp h] at hd
  cases hd

/-- What a first ingestion leaves in an index that was empty. -/
theorem first_ingest {feeds : List Feed} {net : Network} {now : ℤ} {cp : InMemControlPlane}
    (hclient : net.client = .ok ()) {cp₁ : InMemControlPlane} {index₁ : CategoryIndex}
    (hfirst : (ingest InMemControlPlane.categoryStore feeds net now cp ∅).2 = (cp₁, index₁)) :
    (∀ d, tags index₁ d = tags (merge feeds net) d) ∧
      index₁.len = (fetchedDomains feeds net).card ∧
      (index₁.len = 0 ∨ cp₁.categories = merge feeds net) := by
  have hrun := ingest_run InMemControlPlane.categoryStore feeds net now cp ∅
  generalize ingest InMemControlPlane.categoryStore feeds net now cp ∅ = r at hrun hfirst
  cases hrun with
  | noClient h => rw [hclient] at h; cases h
  | notStored _ _ h => cases h
  | skipped _ hlen =>
    cases hfirst
    exact ⟨fun d => (tags_merge_of_card_zero hlen d).symm, hlen.symm, .inl rfl⟩
  | applied _ _ hstore =>
    cases hfirst
    cases hstore
    exact ⟨fun _ => rfl, merge_len feeds net, .inr rfl⟩

/-- When feeds fail in a second ingestion, what the other feeds give stays blocked, nothing new
is blocked, and with as many domains as before nothing changes. The stored categories follow. -/
theorem failed_feeds_bounds {feeds : List Feed} {net net' : Network} {now now' : ℤ}
    {cp cp₁ cp₂ : InMemControlPlane} {index₁ index₂ : CategoryIndex}
    (hclient : net.client = .ok ()) (hsub : Subnetwork feeds net' net)
    (hfirst : (ingest InMemControlPlane.categoryStore feeds net now cp ∅).2 = (cp₁, index₁))
    (hsecond : (ingest InMemControlPlane.categoryStore feeds net' now' cp₁ index₁).2 =
      (cp₂, index₂)) :
    (∀ qname category,
        CategoryIndex.contains (merge feeds net') qname category = true →
          index₂.contains qname category = true) ∧
      (∀ qname category, index₂.contains qname category = true →
        index₁.contains qname category = true) ∧
      (∀ d, tags (merge feeds net') d ⊆ tags cp₂.categories d) ∧
      (∀ d, tags cp₂.categories d ⊆ tags cp₁.categories d) ∧
      ((fetchedDomains feeds net').card = (fetchedDomains feeds net).card →
        index₂ = index₁ ∧ cp₂ = cp₁) := by
  obtain ⟨htags, hlen, hstored⟩ := first_ingest hclient hfirst
  have hle := hsub.card
  have hindex : ∀ d, tags (merge feeds net') d ⊆ tags index₁ d := fun d =>
    htags d ▸ hsub.tags d
  have hcp : ∀ d, tags (merge feeds net') d ⊆ tags cp₁.categories d := by
    intro d
    rcases hstored with h0 | hstored
    · rw [tags_merge_of_card_zero (by omega)]
      exact Finset.empty_subset _
    · exact hstored ▸ hsub.tags d
  have hrun := ingest_run InMemControlPlane.categoryStore feeds net' now' cp₁ index₁
  generalize ingest InMemControlPlane.categoryStore feeds net' now' cp₁ index₁ = r at hrun hsecond
  cases hrun with
  | noClient | skipped =>
    cases hsecond
    exact ⟨fun _ _ => CategoryIndex.contains_mono hindex, fun _ _ h => h, hcp,
      fun _ => Finset.Subset.refl _, fun _ => ⟨rfl, rfl⟩⟩
  | notStored _ _ hstore => cases hstore
  | applied _ hne hstore =>
    cases hsecond
    cases hstore
    exact ⟨fun _ _ h => h, fun _ _ => CategoryIndex.contains_mono hindex,
      fun _ => Finset.Subset.refl _, hcp, fun heq => absurd (heq.trans hlen.symm) hne⟩

def bothFetched : Network := network [.ok ['a', '.', 'b'], .ok ['c', '.', 'd']]

def secondFails : Network := network [.ok ['a', '.', 'b'], .error (.error "timeout")]

theorem secondFails_sub : Subnetwork twoFeeds secondFails bothFetched := by
  rintro (_ | _ | i) hi body hbody
  · exact hbody
  · cases hbody
  · exact absurd hi (by simp [twoFeeds, oneFeed])

theorem failed_feeds_bounds_second_fails :
    CategoryIndex.contains
      (ingest InMemControlPlane.categoryStore twoFeeds secondFails 0
        (ingest InMemControlPlane.categoryStore twoFeeds bothFetched 0
          InMemControlPlane.default ∅).2.1
        (ingest InMemControlPlane.categoryStore twoFeeds bothFetched 0
          InMemControlPlane.default ∅).2.2).2.2 ['a', '.', 'b'] ['x'] = true := by
  have hfirst : (ingest InMemControlPlane.categoryStore twoFeeds bothFetched 0
      InMemControlPlane.default ∅).2 = (_, _) := rfl
  exact (failed_feeds_bounds rfl secondFails_sub hfirst rfl).1 _ _ (by decide +kernel)

/-- A name that only the failed feed listed is no longer blocked. -/
theorem failed_feed_unblocks :
    ¬ ∀ (feeds : List Feed) (net net' : Network) (now now' : ℤ)
      (cp cp₁ cp₂ : InMemControlPlane) (index₁ index₂ : CategoryIndex),
      net.client = .ok () → net'.client = .ok () →
      (∀ i < feeds.length, ∃ body, net.body i = .ok body) →
      (∃ i < feeds.length, ∃ e, net'.body i = .error e) → Subnetwork feeds net' net →
      (ingest InMemControlPlane.categoryStore feeds net now cp ∅).2 = (cp₁, index₁) →
      (ingest InMemControlPlane.categoryStore feeds net' now' cp₁ index₁).2 = (cp₂, index₂) →
      (∀ qname category, index₂.contains qname category = index₁.contains qname category) ∧
        cp₂.categories = cp₁.categories := by
  intro h
  have hall : ∀ i < twoFeeds.length, ∃ body, bothFetched.body i = .ok body := by
    rintro (_ | _ | i) hi
    · exact ⟨_, rfl⟩
    · exact ⟨_, rfl⟩
    · exact absurd hi (by simp [twoFeeds, oneFeed])
  have hsame := (h twoFeeds bothFetched secondFails 0 0 InMemControlPlane.default _ _ _ _ rfl rfl
    hall ⟨1, by decide, _, rfl⟩ secondFails_sub rfl rfl).1 ['c', '.', 'd'] ['x']
  revert hsame
  decide +kernel

/-! ### Restarts -/

/-- A replacement that succeeded is read back with the same categories for every domain. Domains
without a category may be lost. -/
def Faithful (store : CategoryStore σ ω) : Prop :=
  ∀ cp m world cp', store.replaceCategories cp m world = .ok cp' →
    ∃ m', store.categories cp' = .ok m' ∧ ∀ x, Gives m' x ↔ Gives m x

theorem inMem_faithful : Faithful InMemControlPlane.categoryStore := by
  intro cp m now cp' h
  cases h
  exact ⟨m, rfl, fun _ => Iff.rfl⟩

theorem Faithful.failable {store : CategoryStore σ ω} (h : Faithful store) :
    Faithful store.failable := by
  rintro cp m ⟨failure, world⟩ cp' hstore
  cases failure with
  | some e => cases hstore
  | none => exact h cp m world cp' hstore

end Blocklist

namespace BlocklistTables

open Blocklist

/-- The rows read back are the rows stored. -/
theorem gives_categories (self : BlocklistTables) (x : Text × Text) :
    Gives self.categories x ↔ x ∈ self.domainCategories := by
  have hrow (m : CategoryMap) (row x : Text × Text) :
      Gives (mergeDomain {row.2} m row.1) x ↔ Gives m x ∨ x = row := by
    rw [gives_mergeDomain, Finset.mem_singleton, Prod.ext_iff]
  have hempty : ¬ Gives ∅ x := by simp [Gives]
  rw [categories, Fold.foldl_adds hrow, or_iff_right hempty]
  simp

theorem insertDomain_rows {self self' : BlocklistTables} {domain : Text} {now : ℤ}
    (h : self.insertDomain domain now = .ok self') :
    self'.domainCategories = self.domainCategories := by
  unfold insertDomain at h
  split at h
  · cases h
  · split_ifs at h
    cases h
    rfl

theorem insertDomainCategory_rows {self self' : BlocklistTables} {domain category : Text}
    (h : self.insertDomainCategory domain category = .ok self') (x : Text × Text) :
    x ∈ self'.domainCategories ↔ x ∈ self.domainCategories ∨ x = (domain, category) := by
  unfold insertDomainCategory at h
  split at h
  · cases h
  · next hbind =>
    have hval := Database.bindText_ok hbind
    split_ifs at h
    cases h
    rw [List.mem_cons, or_comm, hval]

theorem insertEntry_rows {now : ℤ} {self self' : BlocklistTables} {entry : Text × List Text}
    (h : insertEntry now self entry = .ok self') (x : Text × Text) :
    x ∈ self'.domainCategories ↔
      x ∈ self.domainCategories ∨ x.1 = entry.1 ∧ x.2 ∈ entry.2 := by
  unfold insertEntry at h
  cases hdomain : self.insertDomain entry.1 now with
  | error e => rw [hdomain] at h; cases h
  | ok self₁ =>
    rw [hdomain] at h
    have hrows := Fold.foldlM_adds (fun s c s' hs => insertDomainCategory_rows hs) h x
    rw [hrows, insertDomain_rows hdomain]
    simp [Prod.ext_iff, and_comm]

/-- After a successful replacement the rows are what the map gives. Domains without a category
have no row. -/
theorem replaceCategories_rows {self self' : BlocklistTables} {m : CategoryMap}
    {world : ℤ × IterationOrder} (h : self.replaceCategories m world = .ok self')
    (x : Text × Text) : x ∈ self'.domainCategories ↔ Gives m x := by
  have hrows := Fold.foldlM_adds (fun s entry s' hs => insertEntry_rows hs) h x
  have hempty : x ∉ self.deleteDomainCategories.deleteDomains.domainCategories :=
    List.not_mem_nil
  rw [hrows, or_iff_right hempty]
  constructor
  · rintro ⟨entry, hentry, hd, hc⟩
    have hlookup := (world.2.entry m entry hentry).2
    rw [Gives, tags, hd, hlookup]
    exact List.mem_toFinset.mpr hc
  · intro hx
    have hmem : x.1 ∈ m := by
      by_contra hnot
      rw [Gives, tags, Finmap.lookup_eq_none.mpr hnot] at hx
      cases hx
    obtain ⟨entry, hentry, hd⟩ := List.mem_map.mp (world.2.complete m x.1 hmem)
    refine ⟨entry, hentry, hd.symm, ?_⟩
    rw [Gives, tags, ← hd, (world.2.entry m entry hentry).2] at hx
    exact List.mem_toFinset.mp hx

/-- Every finite map can be walked in some order. -/
theorem iterationOrder_nonempty : Nonempty IterationOrder := by
  let entries (m : CategoryMap) := m.keys.toList.map fun d => (d, (tags m d).toList)
  have hkeys (m : CategoryMap) : (entries m).map Prod.fst = m.keys.toList := by
    simp [entries, Function.comp_def]
  refine ⟨⟨entries, fun m => hkeys m ▸ m.keys.nodup_toList, ?_, fun m d hd => ?_⟩⟩
  · intro m e he
    obtain ⟨d, hd, rfl⟩ := List.mem_map.mp he
    obtain ⟨cats, hcats⟩ := Finmap.mem_iff.mp (Finmap.mem_keys.mp (Finset.mem_toList.mp hd))
    exact ⟨Finset.nodup_toList _, by simp [tags, hcats]⟩
  · rw [hkeys]
    exact Finset.mem_toList.mpr (Finmap.mem_keys.mpr hd)

theorem faithful : Faithful categoryStore := by
  intro self m world self' h
  exact ⟨self'.categories, rfl, fun x =>
    (gives_categories self' x).trans (replaceCategories_rows h x)⟩

end BlocklistTables

namespace Blocklist

/-- A fresh index, loaded now, answers as the index does. -/
def Consistent (store : CategoryStore σ ω) (cp : σ) (index : CategoryIndex) : Prop :=
  ∃ n fresh, load store cp ∅ = (.ok n, fresh) ∧
    ∀ qname category, index.contains qname category = fresh.contains qname category

/-- The invariant behind it: index and store give the same categories to every domain. -/
def InStep (store : CategoryStore σ ω) (s : σ × CategoryIndex) : Prop :=
  ∃ m, store.categories s.1 = .ok m ∧ ∀ x, Gives s.2 x ↔ Gives m x

theorem InStep.consistent {store : CategoryStore σ ω} {s : σ × CategoryIndex}
    (h : InStep store s) : Consistent store s.1 s.2 := by
  obtain ⟨m, hm, hgives⟩ := h
  exact ⟨m.len, m, by rw [load, hm], CategoryIndex.contains_congr (tags_eq_of_gives hgives)⟩

theorem load_inStep {store : CategoryStore σ ω} {cp : σ} {n : ℕ} {index : CategoryIndex}
    (h : load store cp ∅ = (.ok n, index)) : InStep store (cp, index) := by
  unfold load at h
  cases hm : store.categories cp with
  | error e => rw [hm] at h; cases h
  | ok m =>
    rw [hm] at h
    cases h
    exact ⟨index, hm, fun _ => Iff.rfl⟩

theorem step_inStep {store : CategoryStore σ ω} (hstore : Faithful store) (s : σ × CategoryIndex)
    (refresh : Refresh ω) (h : InStep store s) :
    InStep store ((machine store).step s refresh).2 := by
  have hrun := ingest_run store refresh.feeds refresh.net refresh.world s.1 s.2
  change InStep store (ingest store refresh.feeds refresh.net refresh.world s.1 s.2).2
  generalize ingest store refresh.feeds refresh.net refresh.world s.1 s.2 = r at hrun ⊢
  cases hrun with
  | noClient | skipped | notStored => exact h
  | applied _ _ hreplace =>
    obtain ⟨m, hm, hgives⟩ := hstore _ _ _ _ hreplace
    exact ⟨m, hm, fun x => (hgives x).symm⟩

theorem run_consistent {store : CategoryStore σ ω} (hstore : Faithful store) {cp : σ} {n : ℕ}
    {index : CategoryIndex} (hload : load store cp ∅ = (.ok n, index))
    (refreshes : List (Refresh ω)) :
    Consistent store ((machine store).exec (cp, index) refreshes).1
      ((machine store).exec (cp, index) refreshes).2 :=
  (Machine.invariant (machine store) (InStep store) (fun _ => True)
    (fun s refresh _ => step_inStep hstore s refresh) refreshes _ (fun _ _ => trivial)
    (load_inStep hload)).consistent

/-- Along every run from a successful load a restart would change no answer, in memory as over
the tables, wherever replacements fail. -/
theorem restart_consistent :
    (∀ (cp : InMemControlPlane) (n : ℕ) (index : CategoryIndex),
      load InMemControlPlane.categoryStore.failable cp ∅ = (.ok n, index) →
      ∀ refreshes : List (Refresh (Option Failure × ℤ)),
        Consistent InMemControlPlane.categoryStore.failable
          ((machine InMemControlPlane.categoryStore.failable).exec (cp, index) refreshes).1
          ((machine InMemControlPlane.categoryStore.failable).exec (cp, index) refreshes).2) ∧
      ∀ (tables : BlocklistTables) (n : ℕ) (index : CategoryIndex),
        load BlocklistTables.categoryStore.failable tables ∅ = (.ok n, index) →
        ∀ refreshes : List (Refresh (Option Failure × ℤ × BlocklistTables.IterationOrder)),
          Consistent BlocklistTables.categoryStore.failable
            ((machine BlocklistTables.categoryStore.failable).exec (tables, index) refreshes).1
            ((machine BlocklistTables.categoryStore.failable).exec (tables, index)
              refreshes).2 :=
  ⟨fun _ _ _ hload => run_consistent inMem_faithful.failable hload,
    fun _ _ _ hload => run_consistent BlocklistTables.faithful.failable hload⟩

theorem restart_consistent_two_refreshes :
    ∃ order : BlocklistTables.IterationOrder, ∃ refreshes,
      refreshes = [⟨twoFeeds, bothFetched, (none, 0, order)⟩,
        ⟨oneFeed, bothFetched, (some (.error "lost connection"), 1, order)⟩] ∧
      Consistent BlocklistTables.categoryStore.failable
        ((machine BlocklistTables.categoryStore.failable).exec (BlocklistTables.empty, ∅)
          refreshes).1
        ((machine BlocklistTables.categoryStore.failable).exec (BlocklistTables.empty, ∅)
          refreshes).2 := by
  obtain ⟨order⟩ := BlocklistTables.iterationOrder_nonempty
  exact ⟨order, _, rfl, restart_consistent.2 BlocklistTables.empty 0 ∅ rfl _⟩

end Blocklist

end Brdns
