import Brdns.Lib.Fold
import Brdns.Proofs.Statements

/-! What a snapshot of the tables holds for each account: the rules and the upstream that the rows
of the account read back as. -/

namespace Brdns

open Lib Lib.Fold Database

namespace Database

/-- The account of that number, whatever the text. -/
def accountNamed (self : Database) (n : Text) : Option (Row AccountCols) :=
  self.accounts.rows.find? fun r => r.cols.accountNumber.val = n

theorem accountRow_eq (self : Database) (n : PgText) :
    self.accountRow n = self.accountNamed n.val := by
  unfold accountRow accountNamed
  simp only [Subtype.ext_iff]

theorem accountNamed_spec {self : Database} {n : Text} {row : Row AccountCols}
    (h : self.accountNamed n = some row) :
    row ∈ self.accounts.rows ∧ row.cols.accountNumber.val = n :=
  ⟨List.mem_of_find?_eq_some h, by simpa using List.find?_some h⟩

theorem accountNamed_congr {db db' : Database} (h : db'.accounts = db.accounts) (n : Text) :
    db'.accountNamed n = db.accountNamed n := by
  unfold accountNamed
  rw [h]

theorem accountNamed_insert {db db' : Database} {n : Text} {hn : NulFree n}
    (h : db'.accounts = db.accounts.insert ⟨⟨n, hn⟩⟩) (n' : Text) :
    db'.accountNamed n' = (db.accountNamed n').or
      (if n = n' then some ⟨db.accounts.serial + 1, ⟨⟨n, hn⟩⟩⟩ else none) := by
  unfold accountNamed
  rw [h, Table.insert, List.find?_append, List.find?_singleton]
  simp

/-- Accounts with the same id have the same number. -/
theorem accountNamed_inj {self : Database} {n n' : Text} {row row' : Row AccountCols}
    (h : self.accountNamed n = some row) (h' : self.accountNamed n' = some row')
    (hid : row.id = row'.id) : n = n' := by
  obtain ⟨hmem, rfl⟩ := accountNamed_spec h
  obtain ⟨hmem', rfl⟩ := accountNamed_spec h'
  rw [Table.row_unique hmem hmem' hid]

/-- Every row of `accounts` is the one its number finds. -/
theorem accountNamed_of_mem {self : Database} {row : Row AccountCols}
    (hrow : row ∈ self.accounts.rows) :
    self.accountNamed row.cols.accountNumber.val = some row := by
  have hkey : (self.accounts.rows.map fun r => r.cols.accountNumber).Nodup :=
    List.pairwise_map.mpr self.constraints.accounts_key
  cases hfound : self.accountNamed row.cols.accountNumber.val with
  | none =>
    have hnone := List.find?_eq_none.mp hfound row hrow
    simp at hnone
  | some row' =>
    obtain ⟨hrow', hnumber⟩ := accountNamed_spec hfound
    rw [List.inj_on_of_nodup_map hkey hrow' hrow (Subtype.ext hnumber)]

end Database

namespace PostgresControlPlane

theorem accountId_named (self : PostgresControlPlane) {n : Text} (hn : NulFree n) :
    accountId self n = .ok ((self.accountNamed n).map Row.id) := by
  unfold accountId
  rw [bindText_of_nulFree hn]
  change Except.ok ((self.accountRow ⟨n, hn⟩).map Row.id) = _
  rw [accountRow_eq]

/-! ### Rows by account -/

theorem pushRules_reads {rows : List (Row RuleCols)} {map : HashMap ℤ (List Rule)}
    (h : rows.foldlM pushRule ∅ = .ok map) (id : ℤ) :
    List.Forall₂ (fun row rule => ruleFromRow row = .ok rule)
      (rows.filter fun row => row.cols.accountId = id) ((map.lookup id).getD []) := by
  induction rows using List.reverseRec generalizing map with
  | nil =>
    cases h
    exact .nil
  | append_singleton rows row ih =>
    obtain ⟨before, hbefore, hpush⟩ := foldlM_concat.mp h
    unfold pushRule at hpush
    cases hread : ruleFromRow row with
    | error e => rw [hread] at hpush; cases hpush
    | ok rule =>
      rw [hread] at hpush
      cases hpush
      rw [List.filter_append, HashMap.lookup_insert]
      by_cases hid : row.cols.accountId = id
      · subst hid
        simpa using List.rel_append (ih hbefore) (.cons hread .nil)
      · simpa [hid, Ne.symm hid] using ih hbefore

/-- The last row of an account is the one that stays. -/
theorem insertActives_reads {rows : List (Row UpstreamCols)} {map : HashMap ℤ Upstream}
    (h : rows.foldlM insertActive ∅ = .ok map) (id : ℤ) :
    Option.Rel (fun row up => upstreamFromRow row = .ok up)
      (rows.filter fun row => row.cols.accountId.getD 0 = id).getLast? (map.lookup id) := by
  induction rows using List.reverseRec generalizing map with
  | nil =>
    cases h
    exact .none
  | append_singleton rows row ih =>
    obtain ⟨before, hbefore, hinsert⟩ := foldlM_concat.mp h
    unfold insertActive at hinsert
    cases hread : upstreamFromRow row with
    | error e => rw [hread] at hinsert; cases hinsert
    | ok up =>
      rw [hread] at hinsert
      cases hinsert
      rw [List.filter_append, HashMap.lookup_insert]
      by_cases hid : row.cols.accountId.getD 0 = id
      · subst hid
        simpa using Option.Rel.some hread
      · simpa [hid, Ne.symm hid] using ih hbefore

/-- Taking the policies of other accounts leaves those of the rest in the maps. -/
theorem takePolicies_lookup {rows : List (Row AccountCols)}
    (hnumber : rows.Pairwise fun r r' => r.cols.accountNumber ≠ r'.cols.accountNumber)
    (hid : rows.Pairwise fun r r' => r.id ≠ r'.id) (out : Snapshot)
    (rulesByAccount : HashMap ℤ (List Rule)) (upstreamByAccount : HashMap ℤ Upstream) (n : Text) :
    (rows.foldl takePolicy (out, rulesByAccount, upstreamByAccount)).1.lookup n =
      ((rows.find? fun r => r.cols.accountNumber.val = n).map fun row =>
        ⟨(rulesByAccount.lookup row.id).getD [], upstreamByAccount.lookup row.id⟩).or
          (out.lookup n) := by
  induction rows generalizing out rulesByAccount upstreamByAccount with
  | nil => rfl
  | cons row rows ih =>
    obtain ⟨hfirst, hnumber⟩ := List.pairwise_cons.mp hnumber
    obtain ⟨hfirstId, hid⟩ := List.pairwise_cons.mp hid
    rw [List.foldl_cons, takePolicy, ih hnumber hid, List.find?_cons, HashMap.lookup_insert]
    by_cases hrow : row.cols.accountNumber.val = n
    · have hrest : (rows.find? fun r => r.cols.accountNumber.val = n) = none := by
        rw [List.find?_eq_none]
        intro r hr
        have hne := hfirst r hr
        simp only [decide_eq_true_eq]
        exact fun heq => hne (Subtype.ext (hrow.trans heq.symm))
      simp [hrow, hrest]
    · cases hfound : rows.find? fun r => r.cols.accountNumber.val = n with
      | none => simp [hrow, Ne.symm hrow]
      | some found =>
        have hne : found.id ≠ row.id := (hfirstId found (List.mem_of_find?_eq_some hfound)).symm
        simp [hrow, Finmap.lookup_erase_ne hne]

/-! ### Snapshots -/

def snapshotRules (self : PostgresControlPlane) (id : ℤ) : List (Row RuleCols) :=
  (Table.orderBy (fun r => toLex (r.accountId, r.position)) (Database.rules self).rows).filter
    fun row => row.cols.accountId = id

structure Reads (cp : PostgresControlPlane) (account : Row AccountCols) (policy : AccountPolicy) :
    Prop where
  rules : List.Forall₂ (fun row rule => ruleFromRow row = .ok rule) (snapshotRules cp account.id)
    policy.rules
  upstream : Option.Rel (fun row up => upstreamFromRow row = .ok up)
    (upstreamRows cp account.id).head? policy.upstream

/-- The one row for each account that the snapshot reads is the first one. -/
theorem snapshotUpstreams_filter (self : PostgresControlPlane) (id : ℤ) :
    ((Table.distinctOn UpstreamCols.accountId (Table.orderBy (fun u => u.accountId.getD 0)
        (self.upstreams.select fun u => u.accountId.isSome))).filter
      fun row => row.cols.accountId.getD 0 = id) = (upstreamRows self id).head?.toList := by
  generalize hrows : self.upstreams.select (fun u => u.accountId.isSome) = rows
  have howned : ∀ row ∈ Table.distinctOn UpstreamCols.accountId
      (Table.orderBy (fun u => u.accountId.getD 0) rows), row.cols.accountId.isSome := by
    intro row hrow
    have hmem := (Table.orderBy_perm _ _).mem_iff.mp ((Table.distinctOn_sublist _ _).subset hrow)
    rw [← hrows] at hmem
    exact (List.mem_filter.mp hmem).2
  have hkey : rows.filter (fun row => row.cols.accountId = some id) = upstreamRows self id := by
    rw [← hrows]
    unfold Table.select upstreamRows Table.select
    rw [List.filter_filter]
    refine List.filter_congr fun row _ => ?_
    cases haccount : row.cols.accountId <;> simp [haccount]
  have hsame : ∀ row row' : Row UpstreamCols, row.cols.accountId = some id →
      row'.cols.accountId = some id → row.cols.accountId.getD 0 ≤ row'.cols.accountId.getD 0 := by
    intro row row' h h'
    rw [h, h']
  have hsorted : (rows.filter fun row => row.cols.accountId = some id).Pairwise
      fun r r' => r.cols.accountId.getD 0 ≤ r'.cols.accountId.getD 0 :=
    List.pairwise_of_forall_mem_list fun row hrow row' hrow' =>
      hsame row row' (by simpa using (List.mem_filter.mp hrow).2)
        (by simpa using (List.mem_filter.mp hrow').2)
  have hfilter : (Table.orderBy (fun u => u.accountId.getD 0) rows).filter
      (fun row => row.cols.accountId = some id) = _ := Table.filter_orderBy hsorted
  rw [← hkey, ← hfilter, ← Table.filter_distinctOn]
  refine List.filter_congr fun row hrow => ?_
  have := howned row hrow
  cases haccount : row.cols.accountId with
  | none => rw [haccount] at this; cases this
  | some id' => simp

/-- A snapshot has a policy for each account and for nothing else. -/
theorem snapshot_reads {self : PostgresControlPlane} {snapshot : Snapshot}
    (h : PostgresControlPlane.snapshot self = .ok snapshot) (n : Text) :
    Option.Rel (Reads self) (self.accountNamed n) (snapshot.lookup n) := by
  unfold PostgresControlPlane.snapshot at h
  dsimp only at h
  generalize hrules : List.foldlM pushRule ∅ _ = byRules at h
  generalize hups : List.foldlM insertActive ∅ _ = byUpstream at h
  cases byRules with
  | error e => cases h
  | ok rulesByAccount =>
    cases byUpstream with
    | error e => cases h
    | ok upstreamByAccount =>
      cases h
      rw [takePolicies_lookup self.constraints.accounts_key
        (self.accounts.ordered.imp fun hlt => hlt.ne)]
      change Option.Rel (Reads self) _ (((self.accountNamed n).map _).or _)
      cases self.accountNamed n with
      | none => exact .none
      | some row =>
        refine .some ⟨pushRules_reads hrules row.id, ?_⟩
        have hread := insertActives_reads hups row.id
        rw [snapshotUpstreams_filter] at hread
        cases hfirst : (upstreamRows self row.id).head? with
        | none => rw [hfirst] at hread; exact hread
        | some first => rw [hfirst] at hread; exact hread

/-- A snapshot fails only on a row that does not read back. -/
theorem snapshot_ok {self : PostgresControlPlane}
    (hrules : ∀ row ∈ (Database.rules self).rows, ∃ rule, ruleFromRow row = .ok rule)
    (hups : ∀ row ∈ self.upstreams.rows, row.cols.accountId.isSome →
      ∃ up, upstreamFromRow row = .ok up) :
    ∃ snapshot, PostgresControlPlane.snapshot self = .ok snapshot := by
  have hpush : ∃ map, (Table.orderBy (fun r => toLex (r.accountId, r.position))
      (Database.rules self).rows).foldlM pushRule ∅ = .ok map := by
    refine foldlM_ok (fun row hrow map => ?_) ∅
    obtain ⟨rule, hrule⟩ := hrules row ((Table.orderBy_perm _ _).mem_iff.mp hrow)
    unfold pushRule
    rw [hrule]
    exact ⟨_, rfl⟩
  have hinsert : ∃ map, (Table.distinctOn UpstreamCols.accountId
      (Table.orderBy (fun u => u.accountId.getD 0)
        (self.upstreams.select fun u => u.accountId.isSome))).foldlM insertActive ∅ = .ok map := by
    refine foldlM_ok (fun row hrow map => ?_) ∅
    have hmem := (Table.orderBy_perm _ _).mem_iff.mp ((Table.distinctOn_sublist _ _).subset hrow)
    obtain ⟨hrow, hsome⟩ := List.mem_filter.mp hmem
    obtain ⟨up, hup⟩ := hups row hrow hsome
    unfold insertActive
    rw [hup]
    exact ⟨_, rfl⟩
  obtain ⟨rulesByAccount, hpush⟩ := hpush
  obtain ⟨upstreamByAccount, hinsert⟩ := hinsert
  unfold PostgresControlPlane.snapshot
  dsimp only
  rw [hpush, hinsert]
  exact ⟨_, rfl⟩

end PostgresControlPlane

end Brdns
