import Brdns.Spec.Schema

/-! The counters of the tables by rule and window: what counting, deleting rules and adding rules
do to them. -/

namespace Brdns

open Lib

def CounterCols.isFor (id ws : ℤ) (cols : CounterCols) : Bool :=
  cols.ruleId = id ∧ cols.windowStart = ws

namespace Database

/-- The counter of a rule in a window, zero without a row. -/
def counter (self : Database) (ruleId windowStart : ℤ) : ℤ :=
  ((self.counterRow ruleId windowStart).map fun r => r.cols.count).getD 0

theorem counter_congr {db db' : Database} (h : db'.quotaCounters.rows = db.quotaCounters.rows)
    (id ws : ℤ) : db'.counter id ws = db.counter id ws := by
  unfold counter counterRow
  rw [h]

/-- A rule that is not there has no counters. -/
theorem counter_absent {db : Database} {id : ℤ} (h : ¬ Present db.rules.rows id) (ws : ℤ) :
    db.counter id ws = 0 := by
  have hnone : db.counterRow id ws = none := by
    unfold counterRow
    rw [List.find?_eq_none]
    intro c hc hkey
    simp only [decide_eq_true_eq] at hkey
    exact h (hkey.1 ▸ db.constraints.counters_rule_fkey c hc)
  unfold counter
  rw [hnone]
  rfl

/-- Deleting the rules of an account keeps the counters of the others. -/
theorem counter_deleteRules {db : Database} {accountId id : ℤ}
    (h : Present (db.deleteRules accountId).rules.rows id) (ws : ℤ) :
    (db.deleteRules accountId).counter id ws = db.counter id ws := by
  obtain ⟨r, hr, rfl⟩ := h
  obtain ⟨hmem, hkept⟩ := List.mem_filter.mp hr
  have hdeleted : ∀ r' ∈ db.rules.select (fun r => r.accountId = accountId), r'.id ≠ r.id := by
    intro r' hr' hid
    obtain ⟨hmem', haccount⟩ := List.mem_filter.mp hr'
    rw [Table.row_unique hmem' hmem hid] at haccount
    rw [haccount] at hkept
    cases hkept
  unfold counter counterRow deleteRules Table.deleteWhere
  dsimp only
  rw [List.find?_filter]
  congr 3
  funext c
  by_cases hkey : c.cols.ruleId = r.id
  · have hnot : c.cols.ruleId ∉
        (db.rules.select fun r => r.accountId = accountId).map Row.id := by
      rw [hkey, List.mem_map]
      rintro ⟨r', hr', hid⟩
      exact hdeleted r' hr' hid
    simp [hnot]
  · simp [hkey]

theorem counterRow_eq (db : Database) (id ws : ℤ) :
    db.counterRow id ws = db.quotaCounters.rows.find? fun r => r.cols.isFor id ws := rfl

theorem counterRow_key {db : Database} {id ws : ℤ} {r : Row CounterCols}
    (h : db.counterRow id ws = some r) : r.cols.ruleId = id ∧ r.cols.windowStart = ws := by
  unfold counterRow at h
  simpa using List.find?_some h

theorem isFor_other {id ws id' ws' : ℤ} {cols : CounterCols}
    (hkey : cols.ruleId = id ∧ cols.windowStart = ws) (hne : ¬ (id = id' ∧ ws = ws')) :
    cols.isFor id' ws' = false := by
  unfold CounterCols.isFor
  rwa [hkey.1, hkey.2, decide_eq_false_iff_not]

theorem counter_incremented {db db' : Database} {id ws : ℤ} {r : Row CounterCols}
    (hr : db.counterRow id ws = some r)
    (hquota : db'.quotaCounters.rows = ((db.quotaCounters.advance 1).updateWhere
      (CounterCols.isFor id ws) fun c => { c with count := c.count + 1 }).rows) (id' ws' : ℤ) :
    db'.counter id' ws' =
      if id' = id ∧ ws' = ws then r.cols.count + 1 else db.counter id' ws' := by
  have hfind : (((db.quotaCounters.advance 1).updateWhere (CounterCols.isFor id ws)
      fun c => { c with count := c.count + 1 }).rows.find? fun r => r.cols.isFor id' ws') =
        (db.counterRow id' ws').map fun r =>
          if r.cols.isFor id ws then ⟨r.id, { r.cols with count := r.cols.count + 1 }⟩ else r :=
    Table.find?_updateWhere _ fun _ => rfl
  unfold counter
  rw [counterRow_eq, hquota, hfind]
  by_cases hkey : id' = id ∧ ws' = ws
  · obtain ⟨rfl, rfl⟩ := hkey
    simp [hr, CounterCols.isFor, counterRow_key hr]
  · rw [if_neg hkey, Option.map_map]
    congr 1
    cases hfound : db.counterRow id' ws' with
    | none => rfl
    | some r' =>
      have hnot := isFor_other (counterRow_key hfound) hkey
      simp [hnot]

theorem counter_inserted {db db' : Database} {accountId id ws : ℤ}
    (hnone : db.counterRow id ws = none)
    (hquota : db'.quotaCounters.rows = (db.quotaCounters.insert ⟨accountId, id, ws, 1⟩).rows)
    (id' ws' : ℤ) :
    db'.counter id' ws' = if id' = id ∧ ws' = ws then 1 else db.counter id' ws' := by
  have hfind : ((db.quotaCounters.insert ⟨accountId, id, ws, 1⟩).rows.find?
      fun r => r.cols.isFor id' ws') = (db.counterRow id' ws').or
        (if CounterCols.isFor id' ws' ⟨accountId, id, ws, 1⟩ then
          some ⟨db.quotaCounters.serial + 1, ⟨accountId, id, ws, 1⟩⟩ else none) :=
    Table.find?_insert _ _ _
  unfold counter
  rw [counterRow_eq, hquota, hfind]
  by_cases hkey : id' = id ∧ ws' = ws
  · obtain ⟨rfl, rfl⟩ := hkey
    simp [hnone, CounterCols.isFor]
  · have hnot : CounterCols.isFor id' ws' ⟨accountId, id, ws, 1⟩ = false :=
      isFor_other ⟨rfl, rfl⟩ fun h => hkey ⟨h.1.symm, h.2.symm⟩
    simp [hnot, hkey]

/-- Counting in one window of one rule. -/
theorem upsertCounter_counts {db : Database} {accountId id limitCount : ℤ} (ws : ℤ)
    (haccount : Present db.accounts.rows accountId) (hrule : Present db.rules.rows id)
    (hpos : 0 < limitCount) : ∃ db' : Database,
      db.upsertCounter accountId id ws limitCount =
        (.ok (if db.counter id ws < limitCount then some (db.counter id ws + 1) else none), db') ∧
      db'.accounts = db.accounts ∧ db'.rules = db.rules ∧ db'.upstreams = db.upstreams ∧
      ∀ id' ws', db'.counter id' ws' =
        if db.counter id ws < limitCount ∧ id' = id ∧ ws' = ws then db.counter id ws + 1
        else db.counter id' ws' := by
  unfold upsertCounter
  dsimp only
  split
  · rename_i r hr
    have hcount : db.counter id ws = r.cols.count := by
      unfold counter
      rw [hr]
      rfl
    rw [hcount]
    split_ifs with hlt
    · refine ⟨_, rfl, rfl, rfl, rfl, fun id' ws' => ?_⟩
      rw [counter_incremented hr rfl]
      simp only [hlt, true_and]
    · exact ⟨_, rfl, rfl, rfl, rfl, fun id' ws' => by rw [if_neg fun h => hlt h.1]; rfl⟩
  · rename_i hnone
    have hcount : db.counter id ws = 0 := by
      unfold counter
      rw [hnone]
      rfl
    rw [dif_pos haccount, dif_pos hrule, hcount, if_pos hpos]
    refine ⟨_, rfl, rfl, rfl, rfl, fun id' ws' => ?_⟩
    rw [counter_inserted hnone rfl]
    simp only [hpos, true_and, Int.zero_add]

end Database

end Brdns
