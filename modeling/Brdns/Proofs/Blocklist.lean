import Brdns.Lib.Fold
import Brdns.Spec.BlocklistTables

/-! What the blocklist maps say: lookups depend only on which category is given to which domain,
and the merged map gives each domain the categories of the fetched feeds that list it. -/

namespace Brdns

open Lib

/-! ### Lookups -/

namespace CategoryMap

def tags (m : CategoryMap) (d : Text) : Finset Text := (m.lookup d).getD ∅

@[simp] theorem tags_empty (d : Text) : tags ∅ d = ∅ := by
  rw [tags, Finmap.lookup_empty, Option.getD_none]

theorem mem_of_tag {m : CategoryMap} {d category : Text} (h : category ∈ tags m d) : d ∈ m := by
  rw [tags] at h
  rw [← Finmap.lookup_isSome]
  cases hd : m.lookup d with
  | none => simp [hd] at h
  | some cats => rfl

def Gives (m : CategoryMap) (x : Text × Text) : Prop := x.2 ∈ tags m x.1

theorem tags_eq_of_gives {m m' : CategoryMap} (h : ∀ x, Gives m x ↔ Gives m' x) (d : Text) :
    tags m d = tags m' d := Finset.ext fun c => h (d, c)

theorem tags_of_lookup {m : CategoryMap} {d : Text} {cats : Finset Text}
    (h : m.lookup d = some cats) : tags m d = cats := by
  rw [tags, h, Option.getD_some]

theorem lookup_eq_tags {m : CategoryMap} {d : Text} (h : d ∈ m) :
    m.lookup d = some (tags m d) := by
  obtain ⟨cats, hd⟩ := Finmap.mem_iff.mp h
  rw [hd, tags_of_lookup hd]

/-- Maps with the same domains that give the same categories are equal. -/
theorem eq_of_gives {m m' : CategoryMap} (hmem : ∀ d, d ∈ m ↔ d ∈ m')
    (hgives : ∀ x, Gives m x ↔ Gives m' x) : m = m' := by
  apply Finmap.ext_lookup
  intro d
  by_cases hd : d ∈ m
  · rw [lookup_eq_tags hd, lookup_eq_tags ((hmem d).mp hd), tags_eq_of_gives hgives]
  · rw [Finmap.lookup_eq_none.mpr hd, Finmap.lookup_eq_none.mpr fun h => hd ((hmem d).mpr h)]

end CategoryMap

open CategoryMap

namespace CategoryIndex

/-- A name is in a category when it or one of its ancestors is given the category. -/
theorem containsLabels_iff {m : CategoryMap} {category : Text} {labels : List Text} :
    containsLabels m category labels = true ↔
      ∃ t, t ≠ [] ∧ t <:+ labels ∧ category ∈ tags m (Text.join '.' t) := by
  induction labels with
  | nil => simp [containsLabels, List.suffix_nil]
  | cons label labels ih =>
    have hhead : ((m.lookup (Text.join '.' (label :: labels))).any
        fun cats => category ∈ cats) = true ↔
          category ∈ tags m (Text.join '.' (label :: labels)) := by
      rw [tags]
      cases m.lookup (Text.join '.' (label :: labels)) <;> simp
    simp only [containsLabels, Bool.if_true_left, Bool.or_eq_true, decide_eq_true_eq, hhead, ih]
    constructor
    · rintro (h | ⟨t, hne, ht, h⟩)
      · exact ⟨_, List.cons_ne_nil _ _, List.suffix_rfl, h⟩
      · exact ⟨t, hne, ht.trans (List.suffix_cons _ _), h⟩
    · rintro ⟨t, hne, ht, h⟩
      rcases List.suffix_cons_iff.mp ht with rfl | ht
      · exact .inl h
      · exact .inr ⟨t, hne, ht, h⟩

/-- More categories, more lookups that succeed. -/
theorem contains_mono {m m' : CategoryMap} (h : ∀ d, tags m d ⊆ tags m' d)
    {qname category : Text} (hm : contains m qname category = true) :
    contains m' qname category = true := by
  obtain ⟨t, hne, ht, hcat⟩ := containsLabels_iff.mp hm
  exact containsLabels_iff.mpr ⟨t, hne, ht, h _ hcat⟩

theorem contains_congr {m m' : CategoryMap} (h : ∀ d, tags m d = tags m' d)
    (qname category : Text) : contains m qname category = contains m' qname category := by
  rw [Bool.eq_iff_iff]
  exact ⟨contains_mono fun d => (h d).subset, contains_mono fun d => (h d).superset⟩

end CategoryIndex

namespace Blocklist

/-! ### Merging -/

theorem gives_mergeDomain (categories : Finset Text) (m : CategoryMap) (domain : Text)
    (x : Text × Text) :
    Gives (mergeDomain categories m domain) x ↔ Gives m x ∨ x.1 = domain ∧ x.2 ∈ categories := by
  rw [Gives, Gives, tags, lookup_mergeDomain]
  split_ifs with h <;> simp [tags, h]

theorem mem_mergeDomain (categories : Finset Text) (m : CategoryMap) (domain d : Text) :
    d ∈ mergeDomain categories m domain ↔ d ∈ m ∨ d = domain := by
  rw [mergeDomain, Finmap.mem_insert, or_comm]

def TaskResult.Lists (task : TaskResult) (categories : List Text) (d : Text) : Prop :=
  ∃ name domains, task = .ok (name, categories, domains) ∧ d ∈ domains

theorem gives_mergeFeed (m : CategoryMap) (task : TaskResult) (x : Text × Text) :
    Gives (mergeFeed m task) x ↔
      Gives m x ∨ ∃ categories, task.Lists categories x.1 ∧ x.2 ∈ categories := by
  rcases task with e | ⟨name, categories, domains⟩
  · simp [mergeFeed, TaskResult.Lists]
  · rw [mergeFeed, Fold.multiset_foldl_adds (gives_mergeDomain categories.toFinset)]
    simp [TaskResult.Lists]

theorem mem_mergeFeed (m : CategoryMap) (task : TaskResult) (d : Text) :
    d ∈ mergeFeed m task ↔ d ∈ m ∨ ∃ categories, task.Lists categories d := by
  rcases task with e | ⟨name, categories, domains⟩
  · simp [mergeFeed, TaskResult.Lists]
  · have h := Fold.multiset_foldl_adds (mem_mergeDomain categories.toFinset) domains.val m d
    rw [mergeFeed, h]
    simp [TaskResult.Lists]

/-- The `i`th feed was fetched and lists the domain. -/
def Lists (feeds : List Feed) (net : Network) (i : ℕ) (feed : Feed) (d : Text) : Prop :=
  feeds[i]? = some feed ∧ ∃ body, net.body i = .ok body ∧ d ∈ parseDomains feed.format body

/-- The order in which the tasks finish does not matter. -/
theorem exists_task {feeds : List Feed} {net : Network} {categories : List Text} {d : Text} :
    (∃ task ∈ net.completion (feeds.mapIdx (fetchAndParse net)), task.Lists categories d) ↔
      ∃ i feed, Lists feeds net i feed d ∧ categories = feed.categories := by
  simp only [(net.completion_perm _).mem_iff, List.mem_mapIdx]
  constructor
  · rintro ⟨task, ⟨i, hi, rfl⟩, name, domains, htask, hd⟩
    cases hbody : net.body i with
    | error e => simp [fetchAndParse, hbody] at htask
    | ok body =>
      simp only [fetchAndParse, hbody, Except.ok.injEq, Prod.mk.injEq] at htask
      obtain ⟨-, rfl, rfl⟩ := htask
      exact ⟨i, feeds[i], ⟨List.getElem?_eq_getElem hi, body, hbody, hd⟩, rfl⟩
  · rintro ⟨i, feed, ⟨hfeed, body, hbody, hd⟩, rfl⟩
    obtain ⟨hi, rfl⟩ := List.getElem?_eq_some_iff.mp hfeed
    exact ⟨_, ⟨i, hi, rfl⟩, feeds[i].name, _, by rw [fetchAndParse, hbody], hd⟩

theorem gives_merge {feeds : List Feed} {net : Network} {x : Text × Text} :
    Gives (merge feeds net) x ↔ ∃ i feed, Lists feeds net i feed x.1 ∧ x.2 ∈ feed.categories := by
  have hempty : ¬ Gives ∅ x := by simp [Gives]
  rw [merge, Fold.foldl_adds gives_mergeFeed, or_iff_right hempty]
  constructor
  · rintro ⟨task, htask, categories, hlists, hc⟩
    obtain ⟨i, feed, h, rfl⟩ := exists_task.mp ⟨task, htask, hlists⟩
    exact ⟨i, feed, h, hc⟩
  · rintro ⟨i, feed, h, hc⟩
    obtain ⟨task, htask, hlists⟩ := exists_task.mpr ⟨i, feed, h, rfl⟩
    exact ⟨task, htask, feed.categories, hlists, hc⟩

theorem mem_merge {feeds : List Feed} {net : Network} {d : Text} :
    d ∈ merge feeds net ↔ ∃ i feed, Lists feeds net i feed d := by
  have h := Fold.foldl_adds mem_mergeFeed (net.completion (feeds.mapIdx (fetchAndParse net))) ∅ d
  rw [merge, h, or_iff_right Finmap.notMem_empty]
  constructor
  · rintro ⟨task, htask, categories, hlists⟩
    obtain ⟨i, feed, h, -⟩ := exists_task.mp ⟨task, htask, hlists⟩
    exact ⟨i, feed, h⟩
  · rintro ⟨i, feed, h⟩
    obtain ⟨task, htask, hlists⟩ := exists_task.mpr ⟨i, feed, h, rfl⟩
    exact ⟨task, htask, feed.categories, hlists⟩

theorem Lists.congr {feeds : List Feed} {net net' : Network} {i : ℕ} {feed : Feed} {d : Text}
    (hbody : ∀ i < feeds.length, net'.body i = net.body i) :
    Lists feeds net' i feed d ↔ Lists feeds net i feed d := by
  unfold Lists
  apply and_congr_right
  intro hfeed
  rw [hbody i (List.getElem?_eq_some_iff.mp hfeed).1]

/-- Whichever feeds fail and in whatever order the tasks finish: the merged map has as its keys
the domains of the fetched feeds, and gives each the categories of the fetched feeds listing it. -/
theorem merge_exact (feeds : List Feed) (net : Network) :
    (∀ d, d ∈ merge feeds net ↔ ∃ i feed, Lists feeds net i feed d) ∧
      (∀ d categories, (merge feeds net).lookup d = some categories →
        ∀ c, c ∈ categories ↔ ∃ i feed, Lists feeds net i feed d ∧ c ∈ feed.categories) ∧
      ∀ net' : Network, (∀ i < feeds.length, net'.body i = net.body i) →
        merge feeds net' = merge feeds net := by
  refine ⟨fun d => mem_merge, ?_, ?_⟩
  · intro d categories hlookup c
    rw [← tags_of_lookup hlookup]
    exact @gives_merge feeds net (d, c)
  · intro net' hbody
    apply CategoryMap.eq_of_gives
    · intro d
      simp only [mem_merge, Lists.congr hbody]
    · intro x
      simp only [gives_merge, Lists.congr hbody]

def fetchedDomains (feeds : List Feed) (net : Network) : Finset Text :=
  (Finset.range feeds.length).biUnion fun i =>
    match feeds[i]?, net.body i with
    | some feed, .ok body => parseDomains feed.format body
    | _, _ => ∅

theorem mem_fetchedDomains {feeds : List Feed} {net : Network} {d : Text} :
    d ∈ fetchedDomains feeds net ↔ ∃ i feed, Lists feeds net i feed d := by
  simp only [fetchedDomains, Finset.mem_biUnion, Finset.mem_range]
  constructor
  · rintro ⟨i, -, hd⟩
    split at hd
    · next feed body hfeed hbody => exact ⟨i, feed, hfeed, body, hbody, hd⟩
    · cases hd
  · rintro ⟨i, feed, hfeed, body, hbody, hd⟩
    refine ⟨i, (List.getElem?_eq_some_iff.mp hfeed).1, ?_⟩
    rw [hfeed, hbody]
    exact hd

/-- The size of the merged map is the number of distinct domains fetched. -/
theorem merge_len (feeds : List Feed) (net : Network) :
    (merge feeds net).len = (fetchedDomains feeds net).card := by
  rw [HashMap.len]
  congr 1
  ext d
  rw [Finmap.mem_keys, mem_merge, mem_fetchedDomains]

end Blocklist

end Brdns
