import Mathlib.Data.List.Forall2
import Mathlib.Tactic.Common

/-! Lists and options whose elements are related one by one. -/

namespace Lib

theorem optionRel_imp {α β : Type} {R S : α → β → Prop} (h : ∀ a b, R a b → S a b)
    {o : Option α} {o' : Option β} (ho : Option.Rel R o o') : Option.Rel S o o' := by
  cases ho with
  | none => exact .none
  | some hab => exact .some (h _ _ hab)

/-- Both are there, or neither is. -/
theorem optionRel_cases {α β : Type} {R : α → β → Prop} {o : Option α} {o' : Option β}
    (h : Option.Rel R o o') :
    (o = none ∧ o' = none) ∨ ∃ a b, o = some a ∧ o' = some b ∧ R a b := by
  cases h with
  | none => exact .inl ⟨rfl, rfl⟩
  | some hab => exact .inr ⟨_, _, rfl, rfl, hab⟩

theorem optionRel_unique {α β : Type} {R : α → β → Prop} (h : ∀ a b b', R a b → R a b' → b = b')
    {o : Option α} {x y : Option β} (hx : Option.Rel R o x) (hy : Option.Rel R o y) : x = y := by
  cases hx with
  | none =>
    cases hy with
    | none => rfl
  | some hab =>
    cases hy with
    | some hab' => rw [h _ _ _ hab hab']

theorem forall₂_mem_right {α β : Type} {R : α → β → Prop} {xs : List α} {ys : List β}
    (h : List.Forall₂ R xs ys) {y : β} (hy : y ∈ ys) : ∃ x ∈ xs, R x y := by
  induction h with
  | nil => cases hy
  | @cons x y' xs ys hxy _ ih =>
    rcases List.mem_cons.mp hy with rfl | hy
    · exact ⟨x, List.mem_cons_self, hxy⟩
    · obtain ⟨x', hx', hR⟩ := ih hy
      exact ⟨x', List.mem_cons_of_mem x hx', hR⟩

theorem forall₂_mem_left {α β : Type} {R : α → β → Prop} {xs : List α} {ys : List β}
    (h : List.Forall₂ R xs ys) {x : α} (hx : x ∈ xs) : ∃ y ∈ ys, R x y :=
  forall₂_mem_right h.flip hx

theorem forall₂_map_eq {α β γ : Type} {R : α → β → Prop} {xs : List α} {ys : List β}
    (h : List.Forall₂ R xs ys) {f : α → γ} {g : β → γ} (hR : ∀ x y, R x y → f x = g y) :
    xs.map f = ys.map g := by
  induction h with
  | nil => rfl
  | cons hxy _ ih => rw [List.map_cons, List.map_cons, hR _ _ hxy, ih]

theorem forall₂_getElem? {α β : Type} {R : α → β → Prop} {xs : List α} {ys : List β}
    (h : List.Forall₂ R xs ys) (i : ℕ) : Option.Rel R xs[i]? ys[i]? := by
  induction h generalizing i with
  | nil => exact .none
  | cons hxy _ ih =>
    cases i with
    | zero => exact .some hxy
    | succ i => exact ih i

theorem forall₂_head? {α β : Type} {R : α → β → Prop} {xs : List α} {ys : List β}
    (h : List.Forall₂ R xs ys) : Option.Rel R xs.head? ys.head? := by
  cases h with
  | nil => exact .none
  | cons hab _ => exact .some hab

end Lib
