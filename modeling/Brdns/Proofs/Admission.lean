import Brdns.Lib.Machine
import Brdns.Proofs.Management

/-! Quota admission over runs of `record_quota`. A counter says how many calls of its rule were
made in its window, up to the rule's limit, so the calls admitted are the first ones. -/

namespace Brdns

open Lib InMemControlPlane

/-! ### Calls -/

structure Charge where
  accountNumber : Text
  ruleId : ℤ
  now : ℤ
  deriving DecidableEq

/-- Calls in which each rule comes with its own limit and window. -/
def quotaMachine (limit : ℤ → ℤ) (window : ℤ → Window) :
    Machine InMemControlPlane Charge (CplResult Bool) where
  step cp c := cp.recordQuota c.accountNumber c.ruleId (limit c.ruleId) (window c.ruleId) c.now

def Charge.InWindow (window : ℤ → Window) (id ws : ℤ) (c : Charge) : Prop :=
  c.ruleId = id ∧ Quota.windowStart c.now (window id) = .ok ws

instance (window : ℤ → Window) (id ws : ℤ) (c : Charge) : Decidable (c.InWindow window id ws) :=
  inferInstanceAs (Decidable (_ ∧ _))

/-- What the calls for a rule in one of its windows returned, in order. -/
def answersIn (window : ℤ → Window) (id ws : ℤ) (trace : List (Charge × CplResult Bool)) :
    List (CplResult Bool) :=
  (trace.filter fun x => x.1.InWindow window id ws).map Prod.snd

/-- The first `limit` of `n` calls are admitted, the others refused. -/
def firstAdmitted (n limit : ℕ) : List (CplResult Bool) :=
  List.replicate (min n limit) (.ok true) ++ List.replicate (n - limit) (.ok false)

theorem firstAdmitted_succ (n limit : ℕ) :
    firstAdmitted (n + 1) limit = firstAdmitted n limit ++ [.ok (decide (n < limit))] := by
  unfold firstAdmitted
  rcases Nat.lt_or_ge n limit with h | h
  · have hmin : min (n + 1) limit = min n limit + 1 := by omega
    have hrest : n + 1 - limit = 0 := by omega
    have hrest' : n - limit = 0 := by omega
    rw [hmin, hrest, hrest', decide_eq_true h, List.replicate_succ']
    simp
  · have hmin : min (n + 1) limit = min n limit := by omega
    have hrest : n + 1 - limit = n - limit + 1 := by omega
    rw [hmin, hrest, decide_eq_false (Nat.not_lt.mpr h), List.replicate_succ', List.append_assoc]

/-! ### The invariant -/

structure Admission (limit : ℤ → ℤ) (window : ℤ → Window)
    (trace : List (Charge × CplResult Bool)) (cp : InMemControlPlane) : Prop where
  answers : ∀ id ws, answersIn window id ws trace =
    firstAdmitted (answersIn window id ws trace).length (limit id).toNat
  counter : ∀ id ws, cp.counter id ws =
    (min (answersIn window id ws trace).length (limit id).toNat : ℕ)
  within : ∀ id ws count, cp.quota.lookup (id, ws) = some count → count ≤ limit id

theorem answersIn_concat (window : ℤ → Window) (id ws : ℤ)
    (trace : List (Charge × CplResult Bool)) (c : Charge) (answer : CplResult Bool) :
    answersIn window id ws (trace ++ [(c, answer)]) =
      answersIn window id ws trace ++ if c.InWindow window id ws then [answer] else [] := by
  unfold answersIn
  rw [List.filter_append, List.map_append]
  by_cases h : c.InWindow window id ws <;> simp [h]

section

variable {limit : ℤ → ℤ} {window : ℤ → Window} {trace : List (Charge × CplResult Bool)}
  {cp : InMemControlPlane}

/-- A call outside the windows of every rule changes nothing. -/
theorem Admission.outside (h : Admission limit window trace cp) {c : Charge}
    {answer : CplResult Bool} (hc : ∀ id ws, ¬ c.InWindow window id ws) :
    Admission limit window (trace ++ [(c, answer)]) cp := by
  have hsame (id ws : ℤ) : answersIn window id ws (trace ++ [(c, answer)]) =
      answersIn window id ws trace := by
    rw [answersIn_concat, if_neg (hc id ws), List.append_nil]
  refine ⟨fun id ws => ?_, fun id ws => ?_, h.within⟩
  · rw [hsame]
    exact h.answers id ws
  · rw [hsame]
    exact h.counter id ws

/-- A call in a window is admitted exactly when fewer calls than the limit came before it. -/
theorem Admission.inside (h : Admission limit window trace cp) {c : Charge} {ws : ℤ}
    (hws : Quota.windowStart c.now (window c.ruleId) = .ok ws) (cp' : InMemControlPlane)
    (hcounter : ∀ id ws', cp'.counter id ws' =
      if (id, ws') = (c.ruleId, ws) ∧ cp.counter c.ruleId ws < limit c.ruleId
        then cp.counter c.ruleId ws + 1 else cp.counter id ws')
    (hwithin : ∀ id ws' count, cp'.quota.lookup (id, ws') = some count → count ≤ limit id) :
    Admission limit window
      (trace ++ [(c, .ok (decide (cp.counter c.ruleId ws < limit c.ruleId)))]) cp' := by
  have hin (id ws' : ℤ) : c.InWindow window id ws' ↔ (id, ws') = (c.ruleId, ws) := by
    unfold Charge.InWindow
    rw [Prod.mk.injEq]
    constructor
    · rintro ⟨rfl, hws'⟩
      exact ⟨rfl, Except.ok.inj (hws'.symm.trans hws)⟩
    · rintro ⟨rfl, rfl⟩
      exact ⟨rfl, hws⟩
  have hcount := h.counter c.ruleId ws
  have hlt : cp.counter c.ruleId ws < limit c.ruleId ↔
      (answersIn window c.ruleId ws trace).length < (limit c.ruleId).toNat := by omega
  refine ⟨fun id ws' => ?_, fun id ws' => ?_, hwithin⟩
  · rw [answersIn_concat]
    split_ifs with hc
    · cases (hin id ws').mp hc
      rw [List.length_append, List.length_singleton, firstAdmitted_succ, ← h.answers]
      simp only [hlt]
    · rw [List.append_nil]
      exact h.answers id ws'
  · rw [hcounter, answersIn_concat]
    by_cases hc : c.InWindow window id ws'
    · cases (hin id ws').mp hc
      rw [if_pos hc, List.length_append, List.length_singleton]
      split_ifs with hif
      · omega
      · have hge : ¬ cp.counter c.ruleId ws < limit c.ruleId := fun hlt => hif ⟨rfl, hlt⟩
        omega
    · rw [if_neg hc, List.append_nil, if_neg fun hif => hc ((hin id ws').mpr hif.1)]
      exact h.counter id ws'

/-- A count that is within its limit may be stored. -/
theorem Admission.within_insert (h : Admission limit window trace cp) {i w v : ℤ}
    (hv : v ≤ limit i) (id ws count : ℤ)
    (hlookup : (cp.quota.insert (i, w) v).lookup (id, ws) = some count) : count ≤ limit id := by
  rw [HashMap.lookup_insert] at hlookup
  split_ifs at hlookup with hkey
  · cases hkey
    cases hlookup
    exact hv
  · exact h.within id ws count hlookup

/-- One call keeps the invariant. -/
theorem Admission.step (h : Admission limit window trace cp) (c : Charge) :
    Admission limit window (trace ++ [(c, ((quotaMachine limit window).step cp c).1)])
      ((quotaMachine limit window).step cp c).2 := by
  have hrun := cp.recordQuota_run c.accountNumber c.ruleId (limit c.ruleId) (window c.ruleId) c.now
  simp only [quotaMachine]
  generalize cp.recordQuota c.accountNumber c.ruleId (limit c.ruleId) (window c.ruleId) c.now = r
    at hrun ⊢
  cases hrun with
  | zero hle =>
    cases hws : Quota.windowStart c.now (window c.ruleId) with
    | error e =>
      refine h.outside fun id ws hin => ?_
      obtain ⟨rfl, hin⟩ := hin
      rw [hws] at hin
      cases hin
    | ok ws =>
      have hcount := h.counter c.ruleId ws
      have hge : ¬ cp.counter c.ruleId ws < limit c.ruleId := by omega
      have hinside := h.inside hws cp
        (fun id ws' => (if_neg fun hif => hge hif.2).symm) h.within
      rwa [decide_eq_false hge] at hinside
  | failed hpos hws =>
    refine h.outside fun id ws hin => ?_
    obtain ⟨rfl, hin⟩ := hin
    rw [hws] at hin
    cases hin
  | @refused ws hpos hws hcount =>
    have hge : ¬ cp.counter c.ruleId ws < limit c.ruleId := Int.not_lt.mpr hcount
    have hle : cp.counter c.ruleId ws ≤ limit c.ruleId := by
      have := h.counter c.ruleId ws
      omega
    have hinside := h.inside hws
      { cp with quota := cp.quota.insert (c.ruleId, ws) (cp.counter c.ruleId ws) }
      (fun id ws' => ?_) (h.within_insert hle)
    · rwa [decide_eq_false hge] at hinside
    · rw [counter_insert]
      simp only [hge, and_false, if_false]
      split_ifs with hkey
      · cases hkey
        rfl
      · rfl
  | @counted ws hpos hws hcount =>
    have hinside := h.inside hws
      { cp with quota := cp.quota.insert (c.ruleId, ws) (cp.counter c.ruleId ws + 1) }
      (fun id ws' => ?_) (h.within_insert (by omega))
    · rwa [decide_eq_true hcount] at hinside
    · rw [counter_insert]
      simp only [hcount, and_true]

theorem Admission.init (limit : ℤ → ℤ) (window : ℤ → Window) (cp : InMemControlPlane) :
    Admission limit window [] { cp with quota := ∅ } where
  answers _ _ := by simp [answersIn, firstAdmitted]
  counter _ _ := by simp [answersIn, InMemControlPlane.counter]
  within _ _ _ hlookup := by simp at hlookup

end

/-- From a store without counters, in every sequence of calls and for every rule and window, the
calls admitted are the first ones up to the rule's limit, and no counter exceeds its limit. -/
theorem quota_admission (limit : ℤ → ℤ) (window : ℤ → Window) (cp : InMemControlPlane)
    (calls : List Charge) :
    (∀ id ws, answersIn window id ws
        ((quotaMachine limit window).trace { cp with quota := ∅ } calls) =
      firstAdmitted (calls.filter fun c => c.InWindow window id ws).length (limit id).toNat) ∧
    ∀ id ws count, ((quotaMachine limit window).exec { cp with quota := ∅ } calls).quota.lookup
      (id, ws) = some count → count ≤ limit id := by
  have h := (quotaMachine limit window).trace_invariant (Admission limit window) _
    (Admission.init limit window cp) (fun _ _ c h => h.step c) calls
  refine ⟨fun id ws => ?_, h.within⟩
  rw [h.answers id ws, answersIn, List.length_map]
  -- the calls of a trace are the calls of the run
  conv_rhs => rw [← (quotaMachine limit window).map_fst_trace { cp with quota := ∅ } calls]
  rw [List.filter_map, List.length_map]
  rfl

end Brdns
