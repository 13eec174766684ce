import Mathlib.Data.Int.Notation
import Mathlib.Data.List.Forall2
import Mathlib.Logic.Relator
import Mathlib.Order.Basic
import Mathlib.Tactic.Common

/-! Renamings: one-to-one relations between the ids of two runs. They grow as both runs give out
ids, and what was related once stays related. -/

namespace Lib

structure Renaming (α β : Type) where
  Rel : α → β → Prop
  biUnique : Relator.BiUnique Rel

namespace Renaming

section

variable {α β : Type}

instance : Preorder (Renaming α β) where
  le ρ σ := ∀ a b, ρ.Rel a b → σ.Rel a b
  le_refl _ _ _ h := h
  le_trans _ _ _ h h' a b hab := h' a b (h a b hab)

/-- Nothing is renamed yet. -/
instance : Bot (Renaming α β) :=
  ⟨⟨fun _ _ => False, fun _ _ _ h => h.elim, fun _ _ _ h => h.elim⟩⟩

theorem eq_iff (ρ : Renaming α β) {a a' : α} {b b' : β} (h : ρ.Rel a b) (h' : ρ.Rel a' b') :
    a = a' ↔ b = b' := Relator.rel_eq ρ.biUnique h h'

end

/-- The ids renamed so far do not exceed the last ones given out. -/
def Below (ρ : Renaming ℤ ℤ) (last last' : ℤ) : Prop :=
  ∀ i j, ρ.Rel i j → i ≤ last ∧ j ≤ last'

variable {ρ : Renaming ℤ ℤ} {last last' : ℤ}

theorem below_bot (last last' : ℤ) : Below ⊥ last last' := fun _ _ h => h.elim

theorem Below.mono (h : ρ.Below last last') {next next' : ℤ} (hle : last ≤ next)
    (hle' : last' ≤ next') : ρ.Below next next' := fun i j hij =>
  ⟨Int.le_trans (h i j hij).1 hle, Int.le_trans (h i j hij).2 hle'⟩

/-- Renames also the `n` ids that follow the last ones, in order. -/
def extend (ρ : Renaming ℤ ℤ) (last last' : ℤ) (n : ℕ) (h : ρ.Below last last') :
    Renaming ℤ ℤ where
  Rel i j := ρ.Rel i j ∨ last < i ∧ i ≤ last + n ∧ i - last = j - last'
  biUnique := by
    constructor
    · rintro i i' j (hi | hi) (hi' | hi')
      · exact ρ.biUnique.1 hi hi'
      · have := (h i j hi).2
        omega
      · have := (h i' j hi').2
        omega
      · omega
    · rintro i j j' (hj | hj) (hj' | hj')
      · exact ρ.biUnique.2 hj hj'
      · have := (h i j hj).1
        omega
      · have := (h i j' hj').1
        omega
      · omega

variable (h : ρ.Below last last') (n : ℕ)

theorem le_extend : ρ ≤ ρ.extend last last' n h := fun _ _ => .inl

theorem extend_below : (ρ.extend last last' n h).Below (last + n) (last' + n) := by
  rintro i j (hij | hij)
  · have := h i j hij
    omega
  · omega

theorem extend_next {k : ℤ} (hpos : 0 < k) (hle : k ≤ n) :
    (ρ.extend last last' n h).Rel (last + k) (last' + k) := .inr (by omega)

/-- The other ids related by the extension are past the last ones on both sides. -/
theorem rel_extend {i j : ℤ} (hij : (ρ.extend last last' n h).Rel i j) :
    ρ.Rel i j ∨ last < i ∧ last' < j := hij.imp_right fun hnew => ⟨hnew.1, by omega⟩

end Renaming

/-- The `n` ids given out after `last`. -/
def idsAfter (last : ℤ) : ℕ → List ℤ
  | 0 => []
  | n + 1 => (last + 1) :: idsAfter (last + 1) n

theorem mem_idsAfter {last i : ℤ} {n : ℕ} (h : i ∈ idsAfter last n) :
    last < i ∧ i ≤ last + n := by
  induction n generalizing last with
  | zero => cases h
  | succ n ih =>
    push_cast
    rcases List.mem_cons.mp h with rfl | hmem
    · omega
    · have := ih hmem
      omega

theorem nodup_idsAfter (last : ℤ) (n : ℕ) : (idsAfter last n).Nodup := by
  induction n generalizing last with
  | zero => exact List.nodup_nil
  | succ n ih =>
    refine List.nodup_cons.mpr ⟨fun hmem => ?_, ih (last + 1)⟩
    have := (mem_idsAfter hmem).1
    omega

/-- Ids up to `last` stay distinct when the next ones are given out. -/
theorem nodup_append_idsAfter {ids : List ℤ} {last : ℤ} (hids : ids.Nodup)
    (hle : ∀ i ∈ ids, i ≤ last) (n : ℕ) :
    (ids ++ idsAfter last n).Nodup ∧ ∀ i ∈ ids ++ idsAfter last n, i ≤ last + n := by
  constructor
  · refine List.nodup_append.mpr ⟨hids, nodup_idsAfter last n, fun i hi j hj hij => ?_⟩
    have := hle i hi
    have := (mem_idsAfter hj).1
    omega
  · intro i hi
    rcases List.mem_append.mp hi with hold | hnew
    · have := hle i hold
      omega
    · exact (mem_idsAfter hnew).2

end Lib
