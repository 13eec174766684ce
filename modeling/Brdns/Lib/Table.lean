import Mathlib.Data.List.Sort
import Mathlib.Data.Int.Order.Basic
import Mathlib.Tactic.Common

/-! Database tables with a serial key. The sequence of a table only grows, also when the statement
or the transaction that drew from it fails, so no id is given out twice. -/

namespace Lib

structure Row (α : Type) where
  id : ℤ
  cols : α
  deriving DecidableEq

/-- Rows in the order of their ids, and the last value drawn from the sequence. -/
structure Table (α : Type) where
  rows : List (Row α)
  serial : ℤ
  ordered : rows.Pairwise fun r r' => r.id < r'.id
  issued : ∀ r ∈ rows, r.id ≤ serial

namespace Table

variable {α : Type}

def empty : Table α := ⟨[], 0, List.Pairwise.nil, by simp⟩

/-- Values drawn from the sequence for nothing. -/
def advance (t : Table α) (n : ℕ) : Table α where
  rows := t.rows
  serial := t.serial + n
  ordered := t.ordered
  issued r hr := by
    have := t.issued r hr
    omega

def insert (t : Table α) (cols : α) : Table α where
  rows := t.rows ++ [⟨t.serial + 1, cols⟩]
  serial := t.serial + 1
  ordered := by
    refine List.pairwise_append.mpr ⟨t.ordered, List.pairwise_singleton _ _, fun r hr r' hr' => ?_⟩
    rw [List.mem_singleton.mp hr']
    exact Int.lt_add_one_of_le (t.issued r hr)
  issued r hr := by
    rcases List.mem_append.mp hr with hold | hnew
    · have := t.issued r hold
      omega
    · rw [List.mem_singleton.mp hnew]

def deleteWhere (t : Table α) (p : α → Bool) : Table α where
  rows := t.rows.filter fun r => !p r.cols
  serial := t.serial
  ordered := t.ordered.filter _
  issued r hr := t.issued r (List.mem_filter.mp hr).1

def updateWhere (t : Table α) (p : α → Bool) (f : α → α) : Table α where
  rows := t.rows.map fun r => if p r.cols then ⟨r.id, f r.cols⟩ else r
  serial := t.serial
  ordered := by
    refine List.pairwise_map.mpr (t.ordered.imp fun {r r'} h => ?_)
    split_ifs <;> exact h
  issued r hr := by
    obtain ⟨r', hr', rfl⟩ := List.mem_map.mp hr
    have := t.issued r' hr'
    split_ifs <;> exact this

/-- The rows of before a transaction with the sequence of its end. -/
def rollback (before tx : Table α) : Table α where
  rows := before.rows
  serial := max before.serial tx.serial
  ordered := before.ordered
  issued r hr := (before.issued r hr).trans (le_max_left _ _)

def select (t : Table α) (p : α → Bool) : List (Row α) := t.rows.filter fun r => p r.cols

/-- No two rows have the same id. -/
theorem row_unique {t : Table α} {r r' : Row α} (hr : r ∈ t.rows) (hr' : r' ∈ t.rows)
    (hid : r.id = r'.id) : r = r' := by
  have hnodup : (t.rows.map Row.id).Nodup := List.pairwise_map.mpr (t.ordered.imp fun h => h.ne)
  exact List.inj_on_of_nodup_map hnodup hr hr' hid

/-- A deletion is not seen where it deletes nothing. -/
theorem select_deleteWhere (t : Table α) {p q : α → Bool} (h : ∀ cols, q cols → p cols = false) :
    (t.deleteWhere p).select q = t.select q := by
  unfold select deleteWhere
  rw [List.filter_filter]
  refine List.filter_congr fun r _ => ?_
  cases hq : q r.cols with
  | false => rfl
  | true => rw [h r.cols hq]; rfl

theorem select_deleteWhere_self (t : Table α) (p : α → Bool) : (t.deleteWhere p).select p = [] := by
  unfold select deleteWhere
  rw [List.filter_filter, List.filter_eq_nil_iff]
  intro r _
  cases p r.cols <;> simp

/-- The rows by key after those of one key were replaced. -/
theorem select_replaced {κ : Type} [DecidableEq κ] {key : α → κ} {t t' : Table α} {k : κ}
    {rows : List (Row α)} (hreplaced : t'.rows = (t.deleteWhere fun c => key c = k).rows ++ rows)
    (hrows : ∀ r ∈ rows, key r.cols = k) (k' : κ) :
    (t'.select fun c => key c = k') = if k' = k then rows else t.select fun c => key c = k' := by
  have hsplit : (t'.select fun c => key c = k') =
      ((t.deleteWhere fun c => key c = k).select fun c => key c = k') ++
        rows.filter fun r => key r.cols = k' := by
    unfold select
    rw [hreplaced, List.filter_append]
  rw [hsplit]
  split_ifs with hk
  · subst hk
    have hall : rows.filter (fun r => key r.cols = k') = rows :=
      List.filter_eq_self.mpr fun r hr => by simpa using hrows r hr
    rw [hall, select_deleteWhere_self, List.nil_append]
  · have hnone : rows.filter (fun r => key r.cols = k') = [] := by
      refine List.filter_eq_nil_iff.mpr fun r hr => ?_
      simpa [hrows r hr] using Ne.symm hk
    rw [hnone, List.append_nil]
    apply select_deleteWhere
    intro cols hcols
    have hcols : key cols = k' := by simpa using hcols
    simpa [hcols] using hk

theorem find?_insert (t : Table α) (cols : α) (q : α → Bool) :
    (t.insert cols).rows.find? (fun r => q r.cols) =
      (t.rows.find? fun r => q r.cols).or (if q cols then some ⟨t.serial + 1, cols⟩ else none) := by
  unfold insert
  rw [List.find?_append, List.find?_singleton]

/-- An update of other columns finds the row it found before. -/
theorem find?_updateWhere (t : Table α) {p q : α → Bool} {f : α → α} (h : ∀ c, q (f c) = q c) :
    (t.updateWhere p f).rows.find? (fun r => q r.cols) =
      (t.rows.find? fun r => q r.cols).map fun r => if p r.cols then ⟨r.id, f r.cols⟩ else r := by
  unfold updateWhere
  dsimp only
  rw [List.find?_map]
  have hsame : ((fun r : Row α => q r.cols) ∘ fun r => if p r.cols then ⟨r.id, f r.cols⟩ else r) =
      fun r => q r.cols := by
    funext r
    by_cases hp : p r.cols <;> simp [hp, h]
  rw [hsame]

/-! ### Queries -/

section

variable {κ : Type} [LinearOrder κ]

/-- `ORDER BY key`; rows with equal keys stay in the order of their ids. -/
def orderBy (key : α → κ) (rows : List (Row α)) : List (Row α) :=
  rows.insertionSort fun r r' => key r.cols ≤ key r'.cols

theorem orderBy_eq_self {key : α → κ} {rows : List (Row α)}
    (h : rows.Pairwise fun r r' => key r.cols ≤ key r'.cols) : orderBy key rows = rows :=
  List.Pairwise.insertionSort_eq h

theorem orderBy_sorted (key : α → κ) (rows : List (Row α)) :
    (orderBy key rows).Pairwise fun r r' => key r.cols ≤ key r'.cols := by
  have htrans : IsTrans (Row α) fun r r' => key r.cols ≤ key r'.cols :=
    ⟨fun _ _ _ => le_trans⟩
  have htotal : Std.Total fun r r' : Row α => key r.cols ≤ key r'.cols :=
    ⟨fun r r' => le_total (key r.cols) (key r'.cols)⟩
  exact List.pairwise_insertionSort _ rows

theorem orderBy_perm (key : α → κ) (rows : List (Row α)) : (orderBy key rows).Perm rows :=
  List.perm_insertionSort _ _

/-- Inserting an element of one kind is inserting it among its kind. -/
theorem filter_orderedInsert {β : Type} {le : β → β → Prop} [DecidableRel le] [IsTrans β le]
    (p : β → Bool) (a : β) {l : List β} (h : l.Pairwise le) :
    (l.orderedInsert le a).filter p =
      if p a then (l.filter p).orderedInsert le a else l.filter p := by
  induction l with
  | nil => cases ha : p a <;> simp [ha]
  | cons b l ih =>
    obtain ⟨hfirst, hrest⟩ := List.pairwise_cons.mp h
    by_cases hle : le a b
    · have hall : ∀ c ∈ (b :: l).filter p, le a c := by
        intro c hc
        rcases List.mem_cons.mp (List.mem_filter.mp hc).1 with rfl | hmem
        · exact hle
        · exact trans_of le hle (hfirst c hmem)
      have hhead : ((b :: l).filter p).orderedInsert le a = a :: (b :: l).filter p := by
        cases hkept : (b :: l).filter p with
        | nil => rfl
        | cons c kept =>
          exact List.orderedInsert_cons_of_le le kept (hall c (hkept ▸ List.mem_cons_self))
      rw [List.orderedInsert_cons_of_le le l hle, hhead, List.filter_cons]
    · rw [List.orderedInsert_of_not_le le l hle, List.filter_cons, List.filter_cons, ih hrest]
      cases ha : p a <;> cases hb : p b <;> simp [hle]

/-- The rows of one kind come in the order they have by themselves. -/
theorem filter_orderBy_comm (key : α → κ) (p : Row α → Bool) (rows : List (Row α)) :
    (orderBy key rows).filter p = orderBy key (rows.filter p) := by
  have htrans : IsTrans (Row α) fun r r' => key r.cols ≤ key r'.cols :=
    ⟨fun _ _ _ => le_trans⟩
  induction rows with
  | nil => rfl
  | cons r rows ih =>
    have hinsert := filter_orderedInsert p r (orderBy_sorted key rows)
    rw [ih] at hinsert
    rw [List.filter_cons]
    refine Eq.trans hinsert ?_
    split_ifs <;> rfl

/-- Keys that compare alike order alike. -/
theorem orderBy_congr {κ' : Type} [LinearOrder κ'] {key : α → κ} {key' : α → κ'}
    {rows : List (Row α)}
    (h : ∀ r ∈ rows, ∀ r' ∈ rows, key r.cols ≤ key r'.cols ↔ key' r.cols ≤ key' r'.cols) :
    orderBy key rows = orderBy key' rows := by
  have hmap := List.map_insertionSort (fun r r' : Row α => key r.cols ≤ key r'.cols)
    (fun r r' : Row α => key' r.cols ≤ key' r'.cols) id rows h
  rwa [List.map_id, List.map_id] at hmap

/-- Rows already in order stay as they are among others. -/
theorem filter_orderBy {key : α → κ} {rows : List (Row α)} {p : Row α → Bool}
    (h : (rows.filter p).Pairwise fun r r' => key r.cols ≤ key r'.cols) :
    (orderBy key rows).filter p = rows.filter p := by
  rw [filter_orderBy_comm, orderBy_eq_self h]

end

/-- `DISTINCT ON (key)`: the first row for each key. -/
def distinctOn {κ : Type} [DecidableEq κ] (key : α → κ) : List (Row α) → List (Row α)
  | [] => []
  | r :: rows => r :: (distinctOn key rows).filter fun r' => key r'.cols ≠ key r.cols

theorem distinctOn_sublist {κ : Type} [DecidableEq κ] (key : α → κ) (rows : List (Row α)) :
    (distinctOn key rows).Sublist rows := by
  induction rows with
  | nil => exact .slnil
  | cons r rows ih => exact (List.filter_sublist.trans ih).cons_cons r

theorem filter_distinctOn {κ : Type} [DecidableEq κ] (key : α → κ) (k : κ) (rows : List (Row α)) :
    (distinctOn key rows).filter (fun r => key r.cols = k) =
      ((rows.filter fun r => key r.cols = k).head?).toList := by
  induction rows with
  | nil => rfl
  | cons r rows ih =>
    rw [distinctOn, List.filter_cons, List.filter_cons, List.filter_filter]
    by_cases hk : key r.cols = k
    · simp [hk]
    · have hrest : (distinctOn key rows).filter
          (fun r' => decide (key r'.cols = k) && decide (key r'.cols ≠ key r.cols)) =
            (distinctOn key rows).filter fun r' => key r'.cols = k := by
        refine List.filter_congr fun r' _ => ?_
        by_cases hr' : key r'.cols = k
        · simp [hr', Ne.symm hk]
        · simp [hr']
      rw [hrest, ih]
      simp [hk]

end Table

end Lib
