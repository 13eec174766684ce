import Brdns.Spec.Ingest
import Brdns.Spec.Schema

/-! The tables `domains` and `domain_categories` of `migrations/0001_init.sql` and the statements
`lib/controlplane/storage/postgres.rs` runs on them. The constraints are fields of the tables, so
no statement can break them. -/

namespace Brdns

open Lib

structure DomainRow where
  domain : Text
  updatedAt : ℤ
  deriving DecidableEq

structure BlocklistTables where
  domains : List DomainRow
  /-- (domain, category) -/
  domainCategories : List (Text × Text)
  domains_pkey : (domains.map DomainRow.domain).Nodup
  domainCategories_pkey : domainCategories.Nodup
  domainCategories_fkey : ∀ r ∈ domainCategories, r.1 ∈ domains.map DomainRow.domain

namespace BlocklistTables

def empty : BlocklistTables := ⟨[], [], List.nodup_nil, List.nodup_nil, by simp⟩

/-- `DELETE FROM domain_categories`. -/
def deleteDomainCategories (self : BlocklistTables) : BlocklistTables :=
  ⟨self.domains, [], self.domains_pkey, List.nodup_nil, by simp⟩

/-- `DELETE FROM domains`, which cascades. -/
def deleteDomains (_self : BlocklistTables) : BlocklistTables := empty

def insertDomain (self : BlocklistTables) (domain : Text) (now : ℤ) :
    CplResult BlocklistTables :=
  match Database.bindText domain with
  | .error e => .error e
  | .ok domain =>
    if h : domain.val ∈ self.domains.map DomainRow.domain then
      .error (Database.uniqueError "domains_pkey")
    else .ok {
      domains := ⟨domain, now⟩ :: self.domains
      domainCategories := self.domainCategories
      domains_pkey := List.nodup_cons.mpr ⟨h, self.domains_pkey⟩
      domainCategories_pkey := self.domainCategories_pkey
      domainCategories_fkey := fun r hr =>
        List.mem_cons_of_mem _ (self.domainCategories_fkey r hr) }

def insertDomainCategory (self : BlocklistTables) (domain category : Text) :
    CplResult BlocklistTables :=
  match Database.bindText category with
  | .error e => .error e
  | .ok category =>
    if hp : (domain, category.val) ∈ self.domainCategories then
      .error (Database.uniqueError "domain_categories_pkey")
    else if hf : domain ∈ self.domains.map DomainRow.domain then .ok {
      domains := self.domains
      domainCategories := (domain, category.val) :: self.domainCategories
      domains_pkey := self.domains_pkey
      domainCategories_pkey := List.nodup_cons.mpr ⟨hp, self.domainCategories_pkey⟩
      domainCategories_fkey := by
        intro r hr
        rcases List.mem_cons.mp hr with rfl | hr
        · exact hf
        · exact self.domainCategories_fkey r hr }
    else .error (Database.foreignKeyError "domain_categories" "domain_categories_domain_fkey")

/-- The order in which a hash map of hash sets is walked. -/
structure IterationOrder where
  entries : CategoryMap → List (Text × List Text)
  keys_nodup : ∀ m, ((entries m).map Prod.fst).Nodup
  entry : ∀ m, ∀ e ∈ entries m, e.2.Nodup ∧ m.lookup e.1 = some e.2.toFinset
  complete : ∀ m d, d ∈ m → d ∈ (entries m).map Prod.fst

def insertEntry (now : ℤ) (self : BlocklistTables) (entry : Text × List Text) :
    CplResult BlocklistTables := do
  let self ← self.insertDomain entry.1 now
  entry.2.foldlM (fun self category => self.insertDomainCategory entry.1 category) self

/-- One transaction: an error anywhere rolls all of it back. -/
def replaceCategories (self : BlocklistTables) (categories : CategoryMap)
    (world : ℤ × IterationOrder) : CplResult BlocklistTables :=
  (world.2.entries categories).foldlM (insertEntry world.1)
    self.deleteDomainCategories.deleteDomains

/-- `map.entry(domain).or_default().insert(category)` over the selected rows. -/
def categories (self : BlocklistTables) : CategoryMap :=
  self.domainCategories.foldl (fun map row => Blocklist.mergeDomain {row.2} map row.1) ∅

def categoryStore : CategoryStore BlocklistTables (ℤ × IterationOrder) where
  categories self := .ok self.categories
  replaceCategories := replaceCategories

/-- `SELECT MAX(updated_at) FROM domains`; `none` is NULL. -/
def maxUpdatedAt (self : BlocklistTables) : Option ℤ := (self.domains.map DomainRow.updatedAt).max?

/-- The aggregate gives one row whatever the table holds, and its column is read as an integer
that cannot be NULL. -/
def lastIngestion (self : BlocklistTables) : CplResult (Option ℤ) :=
  match self.maxUpdatedAt with
  | some updatedAt => .ok (some updatedAt)
  | none => .error (.error
      "error occurred while decoding column 0: unexpected null; try decoding as an `Option`")

end BlocklistTables

/-! ### Calls on either store -/

/-- A replacement meets a clock and, over the tables, an order in which its map is walked. -/
inductive BlocklistCall where
  | replaceCategories (categories : CategoryMap) (now : ℤ) (order : BlocklistTables.IterationOrder)
  | categories
  | lastIngestion

inductive BlocklistResult where
  | replaced (result : CplResult Unit)
  | categories (result : CplResult CategoryMap)
  | lastIngestion (result : CplResult (Option ℤ))

def InMemControlPlane.blocklistCalls :
    Machine InMemControlPlane BlocklistCall BlocklistResult where
  step self
    | .replaceCategories categories now _ =>
      (.replaced (.ok ()), self.replaceCategories categories now)
    | .categories => (.categories (.ok self.categories), self)
    | .lastIngestion => (.lastIngestion (.ok self.lastIngestion), self)

def BlocklistTables.blocklistCalls : Machine BlocklistTables BlocklistCall BlocklistResult where
  step self
    | .replaceCategories categories now order =>
      match self.replaceCategories categories (now, order) with
      | .ok self => (.replaced (.ok ()), self)
      | .error e => (.replaced (.error e), self)
    | .categories => (.categories (.ok self.categories), self)
    | .lastIngestion => (.lastIngestion self.lastIngestion, self)

end Brdns
