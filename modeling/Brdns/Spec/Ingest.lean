import Brdns.Lib.Machine
import Brdns.Spec.Feeds
import Brdns.Spec.InMem
import Brdns.Spec.Rules
import Mathlib.Data.Multiset.MapFold

/-! `load` and `ingest` of `lib/blocklist.rs`, over any control plane that stores categories. -/

namespace Brdns

open Lib

/-- What the blocklist code uses of a control plane with state `σ`. `ω` is what a replacement
meets from outside, such as the clock; a replacement that fails leaves the state alone. -/
structure CategoryStore (σ ω : Type) where
  categories : σ → CplResult CategoryMap
  replaceCategories : σ → CategoryMap → ω → CplResult σ

def InMemControlPlane.categoryStore : CategoryStore InMemControlPlane ℤ where
  categories self := .ok self.categories
  replaceCategories self categories now := .ok (self.replaceCategories categories now)

/-- The same store where a replacement may also fail for a reason of its own. -/
def CategoryStore.failable {σ ω : Type} (store : CategoryStore σ ω) :
    CategoryStore σ (Option Failure × ω) where
  categories := store.categories
  replaceCategories self categories world :=
    match world.1 with
    | some e => .error e
    | none => store.replaceCategories self categories world.2

namespace Blocklist

/-- What a finished fetch task hands over: name, categories and domains of its feed. -/
abbrev TaskResult := CplResult (Text × List Text × Finset Text)

/-- The network during one ingestion: whether the client can be built, the body or failure of
each feed by its place in the list, and the order in which the tasks finish. -/
structure Network where
  client : CplResult Unit
  body : ℕ → CplResult Text
  completion : List TaskResult → List TaskResult
  completion_perm : ∀ tasks, (completion tasks).Perm tasks

def fetchAndParse (net : Network) (i : ℕ) (feed : Feed) : TaskResult :=
  match net.body i with
  | .error e => .error e
  | .ok body => .ok (feed.name, feed.categories, parseDomains feed.format body)

/-- `merged.entry(domain).or_default().extend(categories)`. -/
def mergeDomain (categories : Finset Text) (merged : CategoryMap) (domain : Text) : CategoryMap :=
  merged.insert domain ((merged.lookup domain).getD ∅ ∪ categories)

theorem lookup_mergeDomain (categories : Finset Text) (merged : CategoryMap) (domain d : Text) :
    (mergeDomain categories merged domain).lookup d =
      if d = domain then some ((merged.lookup d).getD ∅ ∪ categories) else merged.lookup d := by
  rw [mergeDomain, HashMap.lookup_insert]
  split_ifs with h
  · rw [h]
  · rfl

/-- The domains of a feed come out of a hash set in any order. -/
instance (categories : Finset Text) : RightCommutative (mergeDomain categories) where
  right_comm merged d₁ d₂ := by
    apply Finmap.ext_lookup
    intro d
    simp only [lookup_mergeDomain]
    split_ifs <;> rfl

def mergeFeed (merged : CategoryMap) : TaskResult → CategoryMap
  | .error _ => merged
  | .ok (_, categories, domains) => domains.val.foldl (mergeDomain categories.toFinset) merged

/-- The map built from the feeds that were fetched. -/
def merge (feeds : List Feed) (net : Network) : CategoryMap :=
  (net.completion (feeds.mapIdx (fetchAndParse net))).foldl mergeFeed ∅

variable {σ ω : Type}

def load (store : CategoryStore σ ω) (cp : σ) (index : CategoryIndex) :
    CplResult ℕ × CategoryIndex :=
  match store.categories cp with
  | .error e => (.error e, index)
  | .ok map => (.ok map.len, map)

def ingest (store : CategoryStore σ ω) (feeds : List Feed) (net : Network) (world : ω) (cp : σ)
    (index : CategoryIndex) : CplResult ℕ × σ × CategoryIndex :=
  match net.client with
  | .error e => (.error e, cp, index)
  | .ok () =>
    let merged := merge feeds net
    let n := merged.len
    -- as many domains as before is taken for no change
    if n = index.len then (.ok n, cp, index)
    else
      match store.replaceCategories cp merged world with
      | .error e => (.error e, cp, index)
      | .ok cp => (.ok n, cp, merged)

/-- What one refresh of the poll loop meets. -/
structure Refresh (ω : Type) where
  feeds : List Feed
  net : Network
  world : ω

/-- The poll loop: a failed refresh is only logged. -/
def machine (store : CategoryStore σ ω) :
    Machine (σ × CategoryIndex) (Refresh ω) (CplResult ℕ) where
  step s refresh := ingest store refresh.feeds refresh.net refresh.world s.1 s.2

end Blocklist

end Brdns
