import Mathlib.Data.Multiset.MapFold
import Mathlib.Tactic.Common

/-! Folds that only add: when each step adds to a state what its element stands for, the whole
fold adds what all its elements stand for. Steps may fail, and then nothing is claimed. -/

namespace Lib.Fold

variable {σ α β ε : Type} {View : σ → β → Prop} {Adds : α → β → Prop}

theorem foldl_adds {f : σ → α → σ} (hf : ∀ s a x, View (f s a) x ↔ View s x ∨ Adds a x)
    (l : List α) (s : σ) (x : β) : View (l.foldl f s) x ↔ View s x ∨ ∃ a ∈ l, Adds a x := by
  induction l generalizing s with
  | nil => simp
  | cons a l ih =>
    rw [List.foldl_cons, ih, hf, List.exists_mem_cons_iff, or_assoc]

/-- The same when the elements come in no order. -/
theorem multiset_foldl_adds {f : σ → α → σ} [RightCommutative f]
    (hf : ∀ s a x, View (f s a) x ↔ View s x ∨ Adds a x) (m : Multiset α) (s : σ) (x : β) :
    View (m.foldl f s) x ↔ View s x ∨ ∃ a ∈ m, Adds a x := by
  induction m using Quotient.inductionOn with
  | h l => exact foldl_adds hf l s x

/-! ### Steps that can fail -/

theorem bind_ok_iff {x : Except ε α} {f : α → Except ε β} {b : β} :
    (x >>= f) = .ok b ↔ ∃ a, x = .ok a ∧ f a = .ok b := by
  cases x <;> simp [bind, Except.bind]

/-- What a fold adds when it did not fail. -/
theorem foldlM_adds {f : σ → α → Except ε σ}
    (hf : ∀ s a s', f s a = .ok s' → ∀ x, View s' x ↔ View s x ∨ Adds a x) {l : List α}
    {s s' : σ} (h : l.foldlM f s = .ok s') (x : β) :
    View s' x ↔ View s x ∨ ∃ a ∈ l, Adds a x := by
  induction l generalizing s with
  | nil =>
    cases h
    simp
  | cons a l ih =>
    rw [List.foldlM_cons] at h
    obtain ⟨s₁, hs₁, hrest⟩ := bind_ok_iff.mp h
    rw [ih hrest, hf s a s₁ hs₁, List.exists_mem_cons_iff, or_assoc]

theorem foldlM_concat {f : σ → α → Except ε σ} {l : List α} {a : α} {s s' : σ} :
    (l ++ [a]).foldlM f s = .ok s' ↔ ∃ s₁, l.foldlM f s = .ok s₁ ∧ f s₁ a = .ok s' := by
  rw [List.foldlM_append, bind_ok_iff]
  refine exists_congr fun s₁ => and_congr_right fun _ => ?_
  have hlast : [a].foldlM f s₁ = f s₁ a := by
    rw [List.foldlM_cons]
    cases f s₁ a <;> rfl
  rw [hlast]

theorem foldlM_ok {f : σ → α → Except ε σ} {l : List α}
    (h : ∀ a ∈ l, ∀ s, ∃ s', f s a = .ok s') (s : σ) : ∃ s', l.foldlM f s = .ok s' := by
  induction l generalizing s with
  | nil => exact ⟨s, rfl⟩
  | cons a l ih =>
    obtain ⟨hfirst, hrest⟩ := List.forall_mem_cons.mp h
    obtain ⟨s₁, hs₁⟩ := hfirst s
    rw [List.foldlM_cons, hs₁]
    exact ih hrest s₁

/-- No step of a fold failed when the fold did not. -/
theorem foldlM_step {f : σ → α → Except ε σ} {l : List α} {s s' : σ}
    (h : l.foldlM f s = .ok s') : ∀ a ∈ l, ∃ t t', f t a = .ok t' := by
  induction l generalizing s with
  | nil => simp
  | cons a l ih =>
    rw [List.foldlM_cons] at h
    obtain ⟨s₁, hs₁, hrest⟩ := bind_ok_iff.mp h
    exact List.forall_mem_cons.mpr ⟨⟨s, s₁, hs₁⟩, ih hrest⟩

theorem mapM_ok_iff {f : α → Except ε β} {l : List α} {l' : List β} :
    l.mapM f = .ok l' ↔ List.Forall₂ (fun a b => f a = .ok b) l l' := by
  induction l generalizing l' with
  | nil =>
    rw [List.mapM_nil, List.forall₂_nil_left_iff]
    exact ⟨fun h => by cases h; rfl, fun h => h ▸ rfl⟩
  | cons a l ih =>
    rw [List.mapM_cons, List.forall₂_cons_left_iff, bind_ok_iff]
    constructor
    · rintro ⟨b, hb, h⟩
      obtain ⟨bs, hbs, hpure⟩ := bind_ok_iff.mp h
      cases hpure
      exact ⟨b, bs, hb, ih.mp hbs, rfl⟩
    · rintro ⟨b, bs, hb, hbs, rfl⟩
      exact ⟨b, hb, bind_ok_iff.mpr ⟨bs, ih.mpr hbs, rfl⟩⟩

theorem mapM_ok {f : α → Except ε β} {l : List α} (h : ∀ a ∈ l, ∃ b, f a = .ok b) :
    ∃ l', l.mapM f = .ok l' := by
  induction l with
  | nil => exact ⟨[], rfl⟩
  | cons a l ih =>
    obtain ⟨⟨b, hb⟩, hrest⟩ := List.forall_mem_cons.mp h
    obtain ⟨bs, hbs⟩ := ih hrest
    exact ⟨b :: bs, mapM_ok_iff.mpr (.cons hb (mapM_ok_iff.mp hbs))⟩

end Lib.Fold
