import Brdns.Proofs.Ingest

/-! What the two stores remember of the blocklist: after every sequence of calls they hold the same
domains and categories, and the tables know when that was stored as long as they hold a domain. -/

namespace Brdns

open Lib CategoryMap

def NulFreeMap (m : CategoryMap) : Prop := ∀ d ∈ m, NulFree d ∧ ∀ c ∈ tags m d, NulFree c

namespace BlocklistTables

open Blocklist

/-- A new category of a stored domain is stored. -/
theorem insertDomainCategory_ok {self : BlocklistTables} {domain category : Text}
    (hnul : NulFree category) (hnew : (domain, category) ∉ self.domainCategories)
    (hdomain : domain ∈ self.domains.map DomainRow.domain) :
    ∃ self', self.insertDomainCategory domain category = .ok self' ∧
      self'.domains = self.domains := by
  unfold insertDomainCategory
  rw [Database.bindText_of_nulFree hnul]
  dsimp only
  rw [dif_neg hnew, dif_pos hdomain]
  exact ⟨_, rfl, rfl⟩

theorem insertCategories_ok {domain : Text} {categories : List Text} {self : BlocklistTables}
    (hnul : ∀ c ∈ categories, NulFree c) (hnodup : categories.Nodup)
    (hnew : ∀ c ∈ categories, (domain, c) ∉ self.domainCategories)
    (hdomain : domain ∈ self.domains.map DomainRow.domain) :
    ∃ self', categories.foldlM (fun self category => self.insertDomainCategory domain category)
      self = .ok self' ∧ self'.domains = self.domains := by
  induction categories generalizing self with
  | nil => exact ⟨self, rfl, rfl⟩
  | cons c categories ih =>
    obtain ⟨hc, hnul⟩ := List.forall_mem_cons.mp hnul
    obtain ⟨hnot, hnodup⟩ := List.nodup_cons.mp hnodup
    obtain ⟨hfirst, hnew⟩ := List.forall_mem_cons.mp hnew
    obtain ⟨self₁, hinsert, hsame⟩ := insertDomainCategory_ok hc hfirst hdomain
    have hnew₁ : ∀ c' ∈ categories, (domain, c') ∉ self₁.domainCategories := by
      intro c' hc' hmem
      rcases (insertDomainCategory_rows hinsert _).mp hmem with hold | heq
      · exact hnew c' hc' hold
      · cases heq
        exact hnot hc'
    obtain ⟨self₂, hrest, hsame₂⟩ := ih hnul hnodup hnew₁ (hsame.symm ▸ hdomain)
    refine ⟨self₂, ?_, hsame₂.trans hsame⟩
    rw [List.foldlM_cons, hinsert]
    exact hrest

/-- An entry for a domain that is not there is stored with the time given. -/
theorem insertEntry_ok {self : BlocklistTables} {entry : Text × List Text} (now : ℤ)
    (hdomain : NulFree entry.1) (hcategories : ∀ c ∈ entry.2, NulFree c)
    (hnodup : entry.2.Nodup) (hnew : entry.1 ∉ self.domains.map DomainRow.domain) :
    ∃ self', insertEntry now self entry = .ok self' ∧
      self'.domains = ⟨entry.1, now⟩ :: self.domains := by
  have hinsert : ∃ self₁, self.insertDomain entry.1 now = .ok self₁ ∧
      self₁.domains = ⟨entry.1, now⟩ :: self.domains ∧
        self₁.domainCategories = self.domainCategories := by
    unfold insertDomain
    rw [Database.bindText_of_nulFree hdomain]
    dsimp only
    rw [dif_neg hnew]
    exact ⟨_, rfl, rfl, rfl⟩
  obtain ⟨self₁, hinsert, hdomains, hrows⟩ := hinsert
  have hfresh : ∀ c ∈ entry.2, (entry.1, c) ∉ self₁.domainCategories := by
    intro c _ hmem
    rw [hrows] at hmem
    exact hnew (self.domainCategories_fkey _ hmem)
  have hthere : entry.1 ∈ self₁.domains.map DomainRow.domain := by
    rw [hdomains]
    exact List.mem_cons_self
  obtain ⟨self₂, hloop, hsame⟩ := insertCategories_ok hcategories hnodup hfresh hthere
  refine ⟨self₂, ?_, hsame.trans hdomains⟩
  unfold insertEntry
  rw [hinsert]
  exact hloop

/-- The loop over a map with distinct keys. -/
theorem insertEntries_ok (now : ℤ) {entries : List (Text × List Text)} {self : BlocklistTables}
    (hkeys : (entries.map Prod.fst).Nodup)
    (hentries : ∀ e ∈ entries, NulFree e.1 ∧ (∀ c ∈ e.2, NulFree c) ∧ e.2.Nodup)
    (hnew : ∀ e ∈ entries, e.1 ∉ self.domains.map DomainRow.domain) :
    ∃ self', entries.foldlM (insertEntry now) self = .ok self' ∧
      self'.domains = (entries.map fun e => ⟨e.1, now⟩).reverse ++ self.domains := by
  induction entries generalizing self with
  | nil => exact ⟨self, rfl, rfl⟩
  | cons e entries ih =>
    obtain ⟨hnot, hkeys⟩ := List.nodup_cons.mp hkeys
    obtain ⟨⟨hdomain, hcategories, hnodup⟩, hentries⟩ := List.forall_mem_cons.mp hentries
    obtain ⟨hfirst, hnew⟩ := List.forall_mem_cons.mp hnew
    obtain ⟨self₁, hinsert, hdomains⟩ := insertEntry_ok now hdomain hcategories hnodup hfirst
    have hnew₁ : ∀ e' ∈ entries, e'.1 ∉ self₁.domains.map DomainRow.domain := by
      intro e' he' hmem
      rw [hdomains, List.map_cons] at hmem
      rcases List.mem_cons.mp hmem with heq | hold
      · exact hnot (List.mem_map.mpr ⟨e', he', heq⟩)
      · exact hnew e' he' hold
    obtain ⟨self₂, hloop, hdomains₂⟩ := ih hkeys hentries hnew₁
    refine ⟨self₂, ?_, ?_⟩
    · rw [List.foldlM_cons, hinsert]
      exact hloop
    · rw [hdomains₂, hdomains]
      simp

theorem entries_eq_nil_iff (order : IterationOrder) (m : CategoryMap) :
    order.entries m = [] ↔ m = ∅ := by
  constructor
  · intro h
    apply Finmap.ext_lookup
    intro d
    rw [Finmap.lookup_empty, Finmap.lookup_eq_none]
    intro hd
    have hmem := order.complete m d hd
    rw [h] at hmem
    cases hmem
  · rintro rfl
    rw [List.eq_nil_iff_forall_not_mem]
    intro e he
    have hlookup := (order.entry ∅ e he).2
    rw [Finmap.lookup_empty] at hlookup
    cases hlookup

/-- A map without NUL is stored, all of it with one time. -/
theorem replaceCategories_ok (self : BlocklistTables) {m : CategoryMap} (h : NulFreeMap m) (now : ℤ)
    (order : IterationOrder) : ∃ self', self.replaceCategories m (now, order) = .ok self' ∧
      (∀ r ∈ self'.domains, r.updatedAt = now) ∧ (self'.domains = [] ↔ m = ∅) := by
  have hentries : ∀ e ∈ order.entries m,
      NulFree e.1 ∧ (∀ c ∈ e.2, NulFree c) ∧ e.2.Nodup := by
    intro e he
    obtain ⟨hnodup, hlookup⟩ := order.entry m e he
    obtain ⟨hdomain, hcategories⟩ := h e.1 (Finmap.mem_of_lookup_eq_some hlookup)
    refine ⟨hdomain, fun c hc => hcategories c ?_, hnodup⟩
    rw [tags, hlookup]
    exact List.mem_toFinset.mpr hc
  have hnew : ∀ e ∈ order.entries m,
      e.1 ∉ self.deleteDomainCategories.deleteDomains.domains.map DomainRow.domain :=
    fun _ _ => List.not_mem_nil
  obtain ⟨self', hloop, hdomains⟩ := insertEntries_ok now (order.keys_nodup m) hentries hnew
  have hdomains : self'.domains = ((order.entries m).map fun e => ⟨e.1, now⟩).reverse :=
    hdomains.trans (List.append_nil _)
  refine ⟨self', hloop, fun r hr => ?_, ?_⟩
  · rw [hdomains, List.mem_reverse] at hr
    obtain ⟨e, -, rfl⟩ := List.mem_map.mp hr
    rfl
  · rw [hdomains, List.reverse_eq_nil_iff, List.map_eq_nil_iff, entries_eq_nil_iff]

theorem insertEntry_nulFree {now : ℤ} {self self' : BlocklistTables} {entry : Text × List Text}
    (h : insertEntry now self entry = .ok self') :
    NulFree entry.1 ∧ ∀ c ∈ entry.2, NulFree c := by
  unfold insertEntry at h
  obtain ⟨self₁, hdomain, hcategories⟩ := Fold.bind_ok_iff.mp h
  constructor
  · unfold insertDomain at hdomain
    split at hdomain
    · cases hdomain
    · next hbind => exact Database.nulFree_of_bindText hbind
  · intro c hc
    obtain ⟨self₂, self₃, hcategory⟩ := Fold.foldlM_step hcategories c hc
    unfold insertDomainCategory at hcategory
    split at hcategory
    · cases hcategory
    · next hbind => exact Database.nulFree_of_bindText hbind

/-- Only such a map is stored. -/
theorem replaceCategories_nulFree {self self' : BlocklistTables} {m : CategoryMap}
    {world : ℤ × IterationOrder} (h : self.replaceCategories m world = .ok self') :
    NulFreeMap m := by
  intro d hd
  obtain ⟨entry, hentry, rfl⟩ := List.mem_map.mp (world.2.complete m d hd)
  obtain ⟨self₁, self₂, hinsert⟩ := Fold.foldlM_step h entry hentry
  obtain ⟨hdomain, hcategories⟩ := insertEntry_nulFree hinsert
  refine ⟨hdomain, fun c hc => hcategories c ?_⟩
  rw [tags, (world.2.entry m entry hentry).2] at hc
  exact List.mem_toFinset.mp hc

theorem lastIngestion_of_times {self : BlocklistTables} {now : ℤ} (hne : self.domains ≠ [])
    (h : ∀ r ∈ self.domains, r.updatedAt = now) : self.lastIngestion = .ok (some now) := by
  have hmax : self.maxUpdatedAt = some now := by
    unfold maxUpdatedAt
    rw [List.max?_eq_some_iff]
    constructor
    · obtain ⟨r, rows, hrows⟩ := List.exists_cons_of_ne_nil hne
      refine List.mem_map.mpr ⟨r, ?_, h r ?_⟩ <;> rw [hrows] <;> exact List.mem_cons_self
    · intro b hb
      obtain ⟨r, hr, rfl⟩ := List.mem_map.mp hb
      exact (h r hr).le
  unfold lastIngestion
  rw [hmax]

theorem lastIngestion_of_empty {self : BlocklistTables} (h : self.domains = []) :
    ∃ e, self.lastIngestion = .error e := by
  unfold lastIngestion maxUpdatedAt
  rw [h]
  exact ⟨_, rfl⟩

end BlocklistTables

/-! ### Runs -/

namespace BlocklistCall

def replacement : BlocklistCall → Option (CategoryMap × ℤ)
  | replaceCategories m now _ => some (m, now)
  | categories | lastIngestion => none

def NulFree : BlocklistCall → Prop
  | replaceCategories m _ _ => NulFreeMap m
  | categories | lastIngestion => True

def latest (calls : List BlocklistCall) : Option (CategoryMap × ℤ) :=
  calls.reverse.findSome? replacement

theorem latest_concat (calls : List BlocklistCall) (call : BlocklistCall) :
    latest (calls ++ [call]) = call.replacement.or (latest calls) := by
  unfold latest
  rw [List.reverse_append, List.reverse_singleton, List.singleton_append, List.findSome?_cons]
  cases call.replacement <;> rfl

end BlocklistCall

open BlocklistCall (latest)

structure Remembers (calls : List BlocklistCall) (s : InMemControlPlane) (t : BlocklistTables) :
    Prop where
  categories : s.categories = ((latest calls).map Prod.fst).getD ∅
  lastIngestion : s.lastIngestion = (latest calls).map Prod.snd
  rows : ∀ x, Gives s.categories x ↔ Gives t.categories x
  times : ∀ r ∈ t.domains, some r.updatedAt = s.lastIngestion
  domains : t.domains = [] ↔ s.categories = ∅

theorem Remembers.step {calls : List BlocklistCall} {s : InMemControlPlane} {t : BlocklistTables}
    (h : Remembers calls s t) {call : BlocklistCall} (hcall : call.NulFree) :
    Remembers (calls ++ [call]) (InMemControlPlane.blocklistCalls.step s call).2
      (BlocklistTables.blocklistCalls.step t call).2 := by
  have hlatest := BlocklistCall.latest_concat calls call
  cases call with
  | categories | lastIngestion =>
    have hlatest : latest (calls ++ [_]) = latest calls := hlatest
    exact ⟨hlatest ▸ h.categories, hlatest ▸ h.lastIngestion, h.rows, h.times, h.domains⟩
  | replaceCategories m now order =>
    have hlatest : latest (calls ++ [_]) = some (m, now) := hlatest
    obtain ⟨t', hstore, htimes, hempty⟩ :=
      BlocklistTables.replaceCategories_ok t hcall now order
    have hstep : (BlocklistTables.blocklistCalls.step t (.replaceCategories m now order)).2 = t' := by
      unfold BlocklistTables.blocklistCalls
      dsimp only
      rw [hstore]
    rw [hstep]
    refine ⟨by rw [hlatest]; rfl, by rw [hlatest]; rfl, fun x => ?_, fun r hr => ?_, hempty⟩
    · rw [BlocklistTables.gives_categories, BlocklistTables.replaceCategories_rows hstore]
      rfl
    · rw [htimes r hr]
      rfl

theorem remembers (calls : List BlocklistCall) (hcalls : ∀ call ∈ calls, call.NulFree) :
    Remembers calls (InMemControlPlane.blocklistCalls.exec InMemControlPlane.default calls)
      (BlocklistTables.blocklistCalls.exec BlocklistTables.empty calls) := by
  induction calls using List.reverseRec with
  | nil => exact ⟨rfl, rfl, fun _ => Iff.rfl, fun r hr => absurd hr List.not_mem_nil, iff_of_true rfl rfl⟩
  | append_singleton calls call ih =>
    obtain ⟨hcalls, hcall⟩ := List.forall_mem_append.mp hcalls
    rw [Machine.exec_concat, Machine.exec_concat]
    exact (ih hcalls).step (hcall call (List.mem_singleton_self call))

/-- What the two stores answer to a call after these, as it should be. -/
def BlocklistCall.Right (before : List BlocklistCall) (call : BlocklistCall)
    (o o' : BlocklistResult) : Prop :=
  match call with
  | replaceCategories _ _ _ => o = .replaced (.ok ()) ∧ o' = .replaced (.ok ())
  | categories => ∃ m m', o = .categories (.ok m) ∧ o' = .categories (.ok m') ∧
      ∀ x, Gives m x ↔ Gives m' x
  | lastIngestion => o = .lastIngestion (.ok ((latest before).map Prod.snd)) ∧
      o' = .lastIngestion (.ok ((latest before).map Prod.snd))

def RightAnswers (calls : List BlocklistCall) : Prop :=
  ∀ before call after, calls = before ++ call :: after →
    call.Right before
      (InMemControlPlane.blocklistCalls.step
        (InMemControlPlane.blocklistCalls.exec InMemControlPlane.default before) call).1
      (BlocklistTables.blocklistCalls.step
        (BlocklistTables.blocklistCalls.exec BlocklistTables.empty before) call).1

/-- The time is asked for only while the last replacement has left a domain. -/
def AskedWithDomains (calls : List BlocklistCall) : Prop :=
  ∀ before after, calls = before ++ .lastIngestion :: after →
    ∃ m now, latest before = some (m, now) ∧ m ≠ ∅

section

variable {calls : List BlocklistCall} {s : InMemControlPlane} {t : BlocklistTables}

theorem Remembers.lastIngestion_iff (h : Remembers calls s t) :
    t.lastIngestion = .ok ((latest calls).map Prod.snd) ↔
      ∃ m now, latest calls = some (m, now) ∧ m ≠ ∅ := by
  have hcategories := h.categories
  have htimes := h.times
  rw [h.lastIngestion] at htimes
  cases hlatest : latest calls with
  | none =>
    rw [hlatest] at hcategories
    obtain ⟨e, he⟩ := BlocklistTables.lastIngestion_of_empty (h.domains.mpr hcategories)
    rw [he]
    simp
  | some replaced =>
    obtain ⟨m, now⟩ := replaced
    rw [hlatest] at hcategories htimes
    have hcategories : s.categories = m := hcategories
    by_cases hm : m = ∅
    · obtain ⟨e, he⟩ := BlocklistTables.lastIngestion_of_empty
        (h.domains.mpr (hcategories.trans hm))
      rw [he]
      simp [hm]
    · have hne : t.domains ≠ [] := fun hnil => hm (hcategories.symm.trans (h.domains.mp hnil))
      have hok := BlocklistTables.lastIngestion_of_times hne fun r hr =>
        Option.some.inj (htimes r hr)
      exact iff_of_true hok ⟨m, now, rfl, hm⟩

theorem Remembers.right_iff (h : Remembers calls s t) {call : BlocklistCall}
    (hcall : call.NulFree) :
    call.Right calls (InMemControlPlane.blocklistCalls.step s call).1
        (BlocklistTables.blocklistCalls.step t call).1 ↔
      (call = .lastIngestion → ∃ m now, latest calls = some (m, now) ∧ m ≠ ∅) := by
  cases call with
  | replaceCategories m now order =>
    obtain ⟨t', hstore, -⟩ := BlocklistTables.replaceCategories_ok t hcall now order
    have hstep : (BlocklistTables.blocklistCalls.step t (.replaceCategories m now order)).1 =
        .replaced (.ok ()) := by
      unfold BlocklistTables.blocklistCalls
      dsimp only
      rw [hstore]
    exact iff_of_true ⟨rfl, hstep⟩ fun heq => by cases heq
  | categories =>
    exact iff_of_true ⟨s.categories, t.categories, rfl, rfl, h.rows⟩ fun heq => by cases heq
  | lastIngestion =>
    rw [← h.lastIngestion_iff, forall_prop_of_true rfl]
    have hmem : (InMemControlPlane.blocklistCalls.step s .lastIngestion).1 =
        .lastIngestion (.ok ((latest calls).map Prod.snd)) := by
      rw [← h.lastIngestion]
      rfl
    constructor
    · rintro ⟨-, ht⟩
      exact BlocklistResult.lastIngestion.inj ht
    · exact fun ht => ⟨hmem, congrArg BlocklistResult.lastIngestion ht⟩

end

/-- A map with a NUL is stored in memory only. -/
theorem BlocklistCall.nulFree_of_right {before : List BlocklistCall} {call : BlocklistCall}
    {o : BlocklistResult} {t : BlocklistTables}
    (h : call.Right before o (BlocklistTables.blocklistCalls.step t call).1) : call.NulFree := by
  cases call with
  | replaceCategories m now order =>
    have hstored := h.2
    unfold BlocklistTables.blocklistCalls at hstored
    dsimp only at hstored
    cases hstore : t.replaceCategories m (now, order) with
    | error e =>
      rw [hstore] at hstored
      cases hstored
    | ok t' => exact BlocklistTables.replaceCategories_nulFree hstore
  | categories | lastIngestion => trivial

/-- The two stores agree along a run exactly when no map has a NUL and the tables hold a domain
whenever they are asked for the time of the last ingestion. -/
theorem right_answers_iff (calls : List BlocklistCall) :
    RightAnswers calls ↔ (∀ call ∈ calls, call.NulFree) ∧ AskedWithDomains calls := by
  have hright (hcalls : ∀ call ∈ calls, call.NulFree) (before : List BlocklistCall)
      (call : BlocklistCall) (after : List BlocklistCall)
      (hsplit : calls = before ++ call :: after) :
      call.Right before
          (InMemControlPlane.blocklistCalls.step
            (InMemControlPlane.blocklistCalls.exec InMemControlPlane.default before) call).1
          (BlocklistTables.blocklistCalls.step
            (BlocklistTables.blocklistCalls.exec BlocklistTables.empty before) call).1 ↔
        (call = .lastIngestion → ∃ m now, latest before = some (m, now) ∧ m ≠ ∅) := by
    rw [hsplit] at hcalls
    obtain ⟨hbefore, hrest⟩ := List.forall_mem_append.mp hcalls
    exact (remembers before hbefore).right_iff (hrest call List.mem_cons_self)
  constructor
  · intro h
    have hcalls : ∀ call ∈ calls, call.NulFree := by
      intro call hcall
      obtain ⟨before, after, hsplit⟩ := List.append_of_mem hcall
      exact BlocklistCall.nulFree_of_right (h before call after hsplit)
    exact ⟨hcalls, fun before after hsplit =>
      (hright hcalls before _ after hsplit).mp (h before _ after hsplit) rfl⟩
  · rintro ⟨hcalls, h⟩ before call after hsplit
    refine (hright hcalls before call after hsplit).mpr ?_
    rintro rfl
    exact h before after hsplit

def oneDomain : CategoryMap := Finmap.singleton "a.com".toList {"ads".toList}

theorem oneDomain_nulFree : NulFreeMap oneDomain := by
  intro d hd
  obtain rfl := (Finmap.mem_singleton _ _ _).mp hd
  decide +kernel

theorem right_answers_iff_one : ∃ order : BlocklistTables.IterationOrder,
    RightAnswers [.replaceCategories oneDomain 5 order, .categories, .lastIngestion] := by
  obtain ⟨order⟩ := BlocklistTables.iterationOrder_nonempty
  refine ⟨order, (right_answers_iff _).mpr ⟨?_, ?_⟩⟩
  · exact List.forall_mem_cons.mpr ⟨oneDomain_nulFree, by simp [BlocklistCall.NulFree]⟩
  · rintro (_ | ⟨b, _ | ⟨c, _ | ⟨d, before⟩⟩⟩) after hsplit
    · cases hsplit
    · cases hsplit
    · cases hsplit
      exact ⟨oneDomain, 5, rfl, fun hnil => by
        have hmem := congrArg (Finmap.lookup "a.com".toList) hnil
        cases hmem⟩
    · simp at hsplit

/-- A fresh database has no time to give, and so has one that a refresh has left without
domains. -/
theorem fresh_time_undecodable :
    (InMemControlPlane.blocklistCalls.step InMemControlPlane.default .lastIngestion).1 =
        .lastIngestion (.ok none) ∧
      (BlocklistTables.blocklistCalls.step BlocklistTables.empty .lastIngestion).1 =
        .lastIngestion (.error (.error
          "error occurred while decoding column 0: unexpected null; try decoding as an `Option`")) ∧
      ¬ RightAnswers [.lastIngestion] ∧
      ∀ order, ¬ RightAnswers [.replaceCategories ∅ 5 order, .lastIngestion] := by
  refine ⟨rfl, rfl, fun h => ?_, fun order h => ?_⟩
  · cases (h [] .lastIngestion [] rfl).2
  · have hcalls : ∀ call ∈ [BlocklistCall.replaceCategories ∅ 5 order], call.NulFree := by
      rw [List.forall_mem_singleton]
      exact fun d hd => absurd hd Finmap.notMem_empty
    have hasked : BlocklistCall.lastIngestion.NulFree := trivial
    obtain ⟨m, now, hlatest, hm⟩ :=
      ((remembers _ hcalls).right_iff hasked).mp (h [_] .lastIngestion [] rfl) rfl
    cases hlatest
    exact hm rfl

end Brdns
