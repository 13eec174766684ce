import Mathlib.Data.List.Induction
import Mathlib.Order.Basic
import Mathlib.Tactic.Common

/-! Deterministic machines with inputs and outputs: what holds along every run, and when the
inputs of one party can be deleted from a run without the other party noticing. -/

namespace Lib

/-- A machine answers each input with an output and a next state. -/
structure Machine (σ ι ο : Type) where
  step : σ → ι → ο × σ

namespace Machine

variable {σ ι ο : Type} (m : Machine σ ι ο)

/-- The state a list of inputs leads to. -/
def exec (s : σ) : List ι → σ
  | [] => s
  | i :: is => exec (m.step s i).2 is

/-- The inputs of a run, each with the output it got. -/
def trace (s : σ) : List ι → List (ι × ο)
  | [] => []
  | i :: is => (i, (m.step s i).1) :: trace (m.step s i).2 is

@[simp] theorem exec_nil (s : σ) : m.exec s [] = s := rfl

@[simp] theorem exec_cons (s : σ) (i : ι) (is : List ι) :
    m.exec s (i :: is) = m.exec (m.step s i).2 is := rfl

@[simp] theorem trace_nil (s : σ) : m.trace s [] = [] := rfl

@[simp] theorem trace_cons (s : σ) (i : ι) (is : List ι) :
    m.trace s (i :: is) = (i, (m.step s i).1) :: m.trace (m.step s i).2 is := rfl

theorem exec_append (s : σ) (is js : List ι) : m.exec s (is ++ js) = m.exec (m.exec s is) js := by
  induction is generalizing s with
  | nil => rfl
  | cons i is ih => simp only [List.cons_append, exec_cons, ih]

theorem exec_concat (s : σ) (is : List ι) (i : ι) :
    m.exec s (is ++ [i]) = (m.step (m.exec s is) i).2 := by
  rw [exec_append, exec_cons, exec_nil]

theorem trace_concat (s : σ) (is : List ι) (i : ι) :
    m.trace s (is ++ [i]) = m.trace s is ++ [(i, (m.step (m.exec s is) i).1)] := by
  induction is generalizing s with
  | nil => rfl
  | cons j is ih => simp only [List.cons_append, trace_cons, exec_cons, ih]

theorem map_fst_trace (s : σ) (is : List ι) : (m.trace s is).map Prod.fst = is := by
  induction is generalizing s with
  | nil => rfl
  | cons i is ih => rw [trace_cons, List.map_cons, ih]

/-- Runs agree with runs of another machine that takes each input as one of its own, or none. -/
theorem exec_filterMap {κ ο' : Type} (m' : Machine σ κ ο') (f : ι → Option κ) {is : List ι}
    (h : ∀ s, ∀ i ∈ is, (m.step s i).2 = m'.exec s (f i).toList) (s : σ) :
    m.exec s is = m'.exec s (is.filterMap f) := by
  induction is generalizing s with
  | nil => rfl
  | cons i is ih =>
    obtain ⟨hi, his⟩ := List.forall_mem_cons.mp (fun j hj s => h s j hj)
    have hsplit : (i :: is).filterMap f = (f i).toList ++ is.filterMap f := by
      cases hf : f i <;> simp [hf]
    rw [hsplit, exec_append, ← hi, exec_cons]
    exact ih (fun s j hj => his j hj s) _

/-- Inputs that never change the state can be deleted from a run. -/
theorem invisible (keep : ι → Prop) [DecidablePred keep] {is : List ι}
    (h : ∀ s, ∀ i ∈ is, ¬ keep i → (m.step s i).2 = s) (s : σ) :
    m.exec s (is.filter keep) = m.exec s is ∧
      m.trace s (is.filter keep) = (m.trace s is).filter fun x => keep x.1 := by
  induction is generalizing s with
  | nil => exact ⟨rfl, rfl⟩
  | cons i is ih =>
    have hrest := ih (fun s j hj => h s j (List.mem_cons_of_mem i hj)) (m.step s i).2
    by_cases hi : keep i
    · simpa [hi] using hrest
    · have hsame := h s i List.mem_cons_self hi
      rw [hsame] at hrest
      simpa [hi, hsame] using hrest

/-- What the last output of a trace that shows something shows. -/
def latest {β : Type} (shows : ο → Option β) (t : List (ι × ο)) : Option β :=
  t.reverse.findSome? fun x => shows x.2

theorem latest_concat {β : Type} (shows : ο → Option β) (t : List (ι × ο)) (i : ι) (o : ο) :
    latest shows (t ++ [(i, o)]) = (shows o).or (latest shows t) := by
  unfold latest
  rw [List.reverse_append, List.reverse_singleton, List.singleton_append, List.findSome?_cons]
  cases shows o <;> rfl

/-- A property of the trace so far and the state that every input preserves holds of every run. -/
theorem trace_invariant (I : List (ι × ο) → σ → Prop) (s₀ : σ) (hinit : I [] s₀)
    (hstep : ∀ t s i, I t s → I (t ++ [(i, (m.step s i).1)]) (m.step s i).2) (is : List ι) :
    I (m.trace s₀ is) (m.exec s₀ is) := by
  induction is using List.reverseRec with
  | nil => exact hinit
  | append_singleton is i ih =>
    rw [trace_concat, exec_concat]
    exact hstep _ _ _ ih

/-- A property of states that every allowed input preserves holds after every allowed run. -/
theorem invariant (I : σ → Prop) (allowed : ι → Prop)
    (hstep : ∀ s i, allowed i → I s → I (m.step s i).2) (is : List ι) (s : σ)
    (his : ∀ i ∈ is, allowed i) (hs : I s) : I (m.exec s is) := by
  induction is generalizing s with
  | nil => exact hs
  | cons i is ih =>
    exact ih _ (fun j hj => his j (List.mem_cons_of_mem i hj))
      (hstep s i (his i List.mem_cons_self) hs)

/-- The inputs of a run, each with the state it came in. -/
def history (s : σ) : List ι → List (σ × ι)
  | [] => []
  | i :: is => (s, i) :: history (m.step s i).2 is

theorem history_concat (s : σ) (is : List ι) (i : ι) :
    m.history s (is ++ [i]) = m.history s is ++ [(m.exec s is, i)] := by
  induction is generalizing s with
  | nil => rfl
  | cons j is ih => simp only [List.cons_append, history, exec_cons, ih]

/-- The same for a property that also sees the history so far. -/
theorem history_invariant (I : List (σ × ι) → σ → Prop) (s₀ : σ) (hinit : I [] s₀)
    (hstep : ∀ h s i, I h s → I (h ++ [(s, i)]) (m.step s i).2) (is : List ι) :
    I (m.history s₀ is) (m.exec s₀ is) := by
  induction is using List.reverseRec with
  | nil => exact hinit
  | append_singleton is i ih =>
    rw [history_concat, exec_concat]
    exact hstep _ _ _ ih

section Observer

variable {γ : Type} (note : γ → σ → ι → ο → γ)

/-- The machine beside notes on its run: the notes change with each input and see the state it
came in and the output it got. -/
def observe : Machine (σ × γ) ι ο where
  step s i :=
    let (o, t) := m.step s.1 i
    (o, t, note s.2 s.1 i o)

/-- Notes change nothing. -/
theorem observe_exec (s : σ) (g : γ) (is : List ι) :
    ((m.observe note).exec (s, g) is).1 = m.exec s is := by
  induction is generalizing s g with
  | nil => rfl
  | cons i is ih => exact ih _ _

end Observer

section Unwinding

variable {W : Type} [Preorder W] (keep : ι → Prop) [DecidablePred keep]

/-- Unwinding: when deleted inputs are invisible through `R`, and kept inputs take related
states to related states with related outputs, then deleting the inputs that are not kept
changes no output beyond `Obs`. The worlds `W` record what the two runs have agreed on so far
and only grow. -/
theorem unwinding (R : W → σ → σ → Prop) (Obs : W → ι → ο → ο → Prop)
    (hmono : ∀ w w' i o o', w ≤ w' → Obs w i o o' → Obs w' i o o')
    (hdrop : ∀ w s t i, ¬ keep i → R w s t → R w (m.step s i).2 t)
    (hkeep : ∀ w s t i, keep i → R w s t → ∃ w', w ≤ w' ∧
      R w' (m.step s i).2 (m.step t i).2 ∧ Obs w' i (m.step s i).1 (m.step t i).1)
    (is : List ι) (w : W) (s t : σ) (h : R w s t) :
    ∃ w', w ≤ w' ∧ R w' (m.exec s is) (m.exec t (is.filter keep)) ∧
      List.Forall₂ (fun x y => x.1 = y.1 ∧ Obs w' x.1 x.2 y.2)
        ((m.trace s is).filter fun x => keep x.1) (m.trace t (is.filter keep)) := by
  induction is generalizing w s t with
  | nil => exact ⟨w, le_rfl, h, List.Forall₂.nil⟩
  | cons i is ih =>
    by_cases hi : keep i
    · obtain ⟨w₁, hw₁, hR₁, hO⟩ := hkeep w s t i hi h
      obtain ⟨w₂, hw₂, hR₂, hT⟩ := ih w₁ _ _ hR₁
      refine ⟨w₂, hw₁.trans hw₂, by simpa [hi] using hR₂, ?_⟩
      simpa [hi] using And.intro (hmono _ _ _ _ _ hw₂ hO) hT
    · obtain ⟨w₁, hw₁, hR₁, hT⟩ := ih w _ _ (hdrop w s t i hi h)
      exact ⟨w₁, hw₁, by simpa [hi] using hR₁, by simpa [hi] using hT⟩

end Unwinding

section Simulation

variable {τ ο' W : Type} [Preorder W]

/-- Simulation: when an allowed input takes related states of two machines to related states with
related outputs, so does every allowed run. -/
theorem simulation (m' : Machine τ ι ο') (allowed : ι → Prop) (R : W → σ → τ → Prop)
    (Obs : W → ο → ο' → Prop) (hmono : ∀ w w' o o', w ≤ w' → Obs w o o' → Obs w' o o')
    (hstep : ∀ w s t i, allowed i → R w s t → ∃ w', w ≤ w' ∧
      R w' (m.step s i).2 (m'.step t i).2 ∧ Obs w' (m.step s i).1 (m'.step t i).1)
    (is : List ι) (his : ∀ i ∈ is, allowed i) (w : W) (s : σ) (t : τ) (h : R w s t) :
    ∃ w', w ≤ w' ∧ R w' (m.exec s is) (m'.exec t is) ∧
      List.Forall₂ (fun x y => x.1 = y.1 ∧ Obs w' x.2 y.2) (m.trace s is) (m'.trace t is) := by
  induction is generalizing w s t with
  | nil => exact ⟨w, le_rfl, h, List.Forall₂.nil⟩
  | cons i is ih =>
    obtain ⟨hi, his⟩ := List.forall_mem_cons.mp his
    obtain ⟨w₁, hw₁, hR₁, hO⟩ := hstep w s t i hi h
    obtain ⟨w₂, hw₂, hR₂, hT⟩ := ih his w₁ _ _ hR₁
    exact ⟨w₂, hw₁.trans hw₂, hR₂, .cons ⟨rfl, hmono _ _ _ _ hw₂ hO⟩ hT⟩

end Simulation

end Machine

end Lib
