import Mathlib.Algebra.BigOperators.Fin
import Mathlib.Algebra.Order.BigOperators.Group.Finset
import Mathlib.Data.Fin.Tuple.Basic
import Mathlib.Data.Fintype.Sigma
import Mathlib.Tactic.Linarith
import Mathlib.Tactic.Ring

/-! Rejection sampling. Values are drawn one by one and either stand for a sample or are thrown
away. If every sample has as many values, then of the draws of any length as many give one list of
samples as another of its length, and few of the long ones give none. -/

namespace Lib

namespace Sampling

variable {β γ : Type}

/-- As many samples as wanted, from the values drawn; `none` if they run out. -/
def sample (draw : β → Option γ) : ℕ → List β → Option (List γ)
  | 0, _ => some []
  | _ + 1, [] => none
  | k + 1, b :: bs =>
    match draw b with
    | some g => (sample draw k bs).map (g :: ·)
    | none => sample draw (k + 1) bs

theorem sample_length {draw : β → Option γ} {k : ℕ} {bs : List β} {gs : List γ}
    (h : sample draw k bs = some gs) : gs.length = k := by
  induction bs generalizing k gs with
  | nil =>
    cases k with
    | zero => cases h; rfl
    | succ k => cases h
  | cons b bs ih =>
    cases k with
    | zero => cases h; rfl
    | succ k =>
      unfold sample at h
      cases hb : draw b with
      | none =>
        rw [hb] at h
        exact ih h
      | some g =>
        rw [hb] at h
        obtain ⟨gs, hgs, rfl⟩ := Option.map_eq_some_iff.mp h
        rw [List.length_cons, ih hgs]

/-! ### Counting draws -/

section

variable [Fintype β]

/-- How many draws of `n` values have a property. -/
def count (n : ℕ) (P : List β → Prop) [DecidablePred P] : ℕ :=
  Fintype.card {f : Fin n → β // P (List.ofFn f)}

theorem count_zero (P : List β → Prop) [DecidablePred P] : count 0 P = if P [] then 1 else 0 := by
  unfold count
  simp only [List.ofFn_zero]
  split_ifs with h
  · rw [Fintype.card_eq_one_iff]
    exact ⟨⟨Fin.elim0, h⟩, fun f => Subtype.ext (Subsingleton.elim _ _)⟩
  · exact Fintype.card_eq_zero_iff.mpr ⟨fun f => h f.2⟩

/-- By the first value. -/
theorem count_succ (n : ℕ) (P : List β → Prop) [DecidablePred P] :
    count (n + 1) P = ∑ b, count n fun bs => P (b :: bs) := by
  unfold count
  rw [← Fintype.card_sigma]
  refine Fintype.card_congr
    ⟨fun f => ⟨f.1 0, Fin.tail f.1, ?_⟩, fun x => ⟨Fin.cons x.1 x.2.1, ?_⟩, ?_, ?_⟩
  · have hf := f.2
    rw [List.ofFn_succ] at hf
    exact hf
  · rw [List.ofFn_succ]
    exact x.2.2
  · intro f
    exact Subtype.ext (Fin.cons_self_tail f.1)
  · intro x
    rfl

theorem count_true (n : ℕ) : count n (fun _ : List β => True) = Fintype.card β ^ n := by
  induction n with
  | zero => rw [count_zero, if_pos trivial, pow_zero]
  | succ n ih =>
    rw [count_succ, Finset.sum_congr rfl fun b _ => ih, Finset.sum_const, Finset.card_univ,
      smul_eq_mul, pow_succ']

theorem count_false (n : ℕ) : count n (fun _ : List β => False) = 0 :=
  Fintype.card_eq_zero_iff.mpr ⟨fun f => f.2⟩

theorem count_congr (n : ℕ) {P Q : List β → Prop} [DecidablePred P] [DecidablePred Q]
    (h : ∀ bs, P bs ↔ Q bs) : count n P = count n Q :=
  Fintype.card_congr (Equiv.subtypeEquivRight fun f => h (List.ofFn f))

/-! ### Running out of values -/

variable (draw : β → Option γ)

def rejected : ℕ := (Finset.univ.filter fun b => draw b = none).card

def accepted : ℕ := (Finset.univ.filter fun b => draw b ≠ none).card

theorem accepted_add_rejected : accepted draw + rejected draw = Fintype.card β := by
  rw [add_comm]
  exact Finset.card_filter_add_card_filter_not fun b => draw b = none

/-- How many draws of `n` values are too few for `k` samples. -/
def fails (n k : ℕ) : ℕ := count n fun bs => sample draw k bs = none

theorem fails_zero (n : ℕ) : fails draw n 0 = 0 := by
  exact (count_congr n fun bs => by simp [sample]).trans (count_false n)

theorem fails_zero_succ (k : ℕ) : fails draw 0 (k + 1) = 1 := by
  simp [fails, count_zero, sample]

theorem fails_succ_succ (n k : ℕ) :
    fails draw (n + 1) (k + 1) =
      rejected draw * fails draw n (k + 1) + accepted draw * fails draw n k := by
  have hvalue : ∀ b, (count n fun bs => sample draw (k + 1) (b :: bs) = none) =
      (if draw b = none then fails draw n (k + 1) else 0) +
        if draw b ≠ none then fails draw n k else 0 := by
    intro b
    cases hb : draw b with
    | none =>
      rw [if_pos rfl, if_neg (by simp), add_zero]
      exact count_congr n fun bs => by simp only [sample, hb]
    | some g =>
      rw [if_neg (by simp), if_pos (by simp), zero_add]
      exact count_congr n fun bs => by simp [sample, hb]
  rw [fails, count_succ, Finset.sum_congr rfl fun b _ => hvalue b, Finset.sum_add_distrib,
    Finset.sum_ite, Finset.sum_ite]
  simp only [Finset.sum_const, smul_eq_mul, mul_zero, add_zero]
  rfl

/-- Each value more is an even bet at worst that leaves one sample less to find. -/
theorem fails_le (n k : ℕ) :
    2 ^ n * fails draw n k ≤ 2 ^ k * (Fintype.card β + rejected draw) ^ n := by
  have hcard := accepted_add_rejected draw
  induction n generalizing k with
  | zero =>
    cases k with
    | zero => simp [fails_zero]
    | succ k => simpa [fails_zero_succ] using Nat.one_le_two_pow
  | succ n ih =>
    cases k with
    | zero => simp [fails_zero]
    | succ k =>
      have hmiss := Nat.mul_le_mul_left (2 * rejected draw) (ih (k + 1))
      have hhit := Nat.mul_le_mul_left (2 * accepted draw) (ih k)
      calc 2 ^ (n + 1) * fails draw (n + 1) (k + 1)
          = 2 * rejected draw * (2 ^ n * fails draw n (k + 1)) +
              2 * accepted draw * (2 ^ n * fails draw n k) := by
            rw [fails_succ_succ]
            ring
        _ ≤ 2 * rejected draw * (2 ^ (k + 1) * (Fintype.card β + rejected draw) ^ n) +
              2 * accepted draw * (2 ^ k * (Fintype.card β + rejected draw) ^ n) :=
            Nat.add_le_add hmiss hhit
        _ = 2 ^ (k + 1) * (Fintype.card β + rejected draw) ^ (n + 1) := by
            rw [← hcard]
            ring

/-! ### What comes out -/

variable [DecidableEq γ]

/-- How many values stand for the sample. -/
def weight (g : γ) : ℕ := (Finset.univ.filter fun b => draw b = some g).card

/-- How many draws of `n` values give the samples. -/
def hits (n : ℕ) (gs : List γ) : ℕ := count n fun bs => sample draw gs.length bs = some gs

theorem hits_nil (n : ℕ) : hits draw n [] = Fintype.card β ^ n := by
  rw [← count_true]
  exact count_congr n fun bs => by simp [sample]

theorem hits_zero_cons (g : γ) (gs : List γ) : hits draw 0 (g :: gs) = 0 := by
  simp [hits, count_zero, sample]

theorem hits_succ_cons (n : ℕ) (g : γ) (gs : List γ) :
    hits draw (n + 1) (g :: gs) =
      rejected draw * hits draw n (g :: gs) + weight draw g * hits draw n gs := by
  have hvalue : ∀ b, (count n fun bs => sample draw (gs.length + 1) (b :: bs) = some (g :: gs)) =
      (if draw b = none then hits draw n (g :: gs) else 0) +
        if draw b = some g then hits draw n gs else 0 := by
    intro b
    cases hb : draw b with
    | none =>
      rw [if_pos rfl, if_neg (by simp), add_zero]
      exact count_congr n fun bs => by simp only [sample, hb]; rfl
    | some g' =>
      rw [if_neg (by simp), zero_add]
      by_cases hg : g' = g
      · subst hg
        rw [if_pos rfl]
        exact count_congr n fun bs => by simp [sample, hb]
      · rw [if_neg (by simpa using hg), ← (count_false n : count n (fun _ : List β => False) = 0)]
        exact count_congr n fun bs => by simp [sample, hb, hg]
  unfold hits
  rw [List.length_cons, count_succ, Finset.sum_congr rfl fun b _ => hvalue b,
    Finset.sum_add_distrib, Finset.sum_ite, Finset.sum_ite]
  simp only [Finset.sum_const, smul_eq_mul, mul_zero, add_zero]
  rfl

/-- The values that stand for something, by what they stand for. -/
theorem accepted_eq_sum [Fintype γ] : accepted draw = ∑ g, weight draw g := by
  have hvalue : ∀ b, (if draw b ≠ none then 1 else 0) =
      ∑ g, if draw b = some g then 1 else 0 := by
    intro b
    cases draw b with
    | none => simp
    | some g => simp
  unfold accepted weight
  simp only [Finset.card_filter]
  rw [Finset.sum_comm]
  exact Finset.sum_congr rfl fun b _ => hvalue b

/-- With samples of one weight, every list of samples comes out of as many draws, and these and
those that run out are all draws there are. -/
theorem hits_add_fails [Fintype γ] {w : ℕ} (hw : ∀ g, weight draw g = w) (n : ℕ) (gs : List γ) :
    Fintype.card γ ^ gs.length * hits draw n gs + fails draw n gs.length = Fintype.card β ^ n := by
  have haccepted : accepted draw = Fintype.card γ * w := by
    rw [accepted_eq_sum, Finset.sum_congr rfl fun g _ => hw g, Finset.sum_const, Finset.card_univ,
      smul_eq_mul]
  induction n generalizing gs with
  | zero =>
    cases gs with
    | nil => simp [hits_nil, fails_zero]
    | cons g gs => simp [hits_zero_cons, fails_zero_succ]
  | succ n ih =>
    cases gs with
    | nil => simp [hits_nil, fails_zero]
    | cons g gs =>
      have hmiss := ih (g :: gs)
      have hhit := ih gs
      rw [List.length_cons] at hmiss ⊢
      calc Fintype.card γ ^ (gs.length + 1) * hits draw (n + 1) (g :: gs) +
            fails draw (n + 1) (gs.length + 1)
          = rejected draw * (Fintype.card γ ^ (gs.length + 1) * hits draw n (g :: gs) +
                fails draw n (gs.length + 1)) +
              accepted draw * (Fintype.card γ ^ gs.length * hits draw n gs +
                fails draw n gs.length) := by
            rw [hits_succ_cons, fails_succ_succ, hw, haccepted]
            ring
        _ = Fintype.card β ^ (n + 1) := by
            rw [hmiss, hhit, ← accepted_add_rejected draw]
            ring

end

end Sampling

end Lib
