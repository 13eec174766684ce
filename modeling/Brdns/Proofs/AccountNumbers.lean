import Brdns.Proofs.Management
import Brdns.Spec.Http

/-! Which account numbers the management API stores. Every write makes sure of an account under
the number it is given; only `POST /api/accounts` checks that number first. -/

namespace Brdns

open Lib InMemControlPlane

namespace Http

/-- The account a request that reaches the store makes sure of. -/
def Request.account : Request → Option Text
  | .createAccount (.ok accountNumber) random =>
    (requestedNumber accountNumber random).toOption.filter isValidAccountNumber
  | .replaceRules acct (.ok body) => if body.any invalidRule then none else some acct
  | .replaceUpstreams acct (.ok _) => some acct
  | _ => none

section

variable (cp : InMemControlPlane)

theorem mem_accounts_createAccount (n n' : Text) :
    n' ∈ (cp.createAccount n).2.accounts ↔ n' ∈ cp.accounts ∨ n = n' := by
  rw [InMemControlPlane.createAccount, getOrCreate_eq, Finmap.mem_insert, or_comm, eq_comm]

theorem mem_accounts_replaceRules (n n' : Text) (news : List NewRule) :
    n' ∈ (cp.replaceRules n news).2.accounts ↔ n' ∈ cp.accounts ∨ n = n' := by
  rw [replaceRules_eq, Finmap.mem_insert, or_comm, eq_comm]

theorem mem_accounts_replaceUpstreams (n n' : Text) (news : List NewUpstream) :
    n' ∈ (cp.replaceUpstreams n news).2.accounts ↔ n' ∈ cp.accounts ∨ n = n' := by
  rw [replaceUpstreams_eq, Finmap.mem_insert, or_comm, eq_comm]

/-- The accounts after a request are those before it and the one it makes sure of. -/
theorem mem_accounts_handle (request : Request) (n : Text) :
    n ∈ (handle managementStore cp request).2.accounts ↔
      n ∈ cp.accounts ∨ request.account = some n := by
  cases request with
  | createAccount body random =>
    cases body with
    | error rejection => simp [handle, Request.account]
    | ok accountNumber =>
      rw [handle, Http.createAccount, Request.account]
      cases requestedNumber accountNumber random with
      | error e => simp [Except.toOption]
      | ok number =>
        have hfilter : Option.filter isValidAccountNumber (Except.ok number : CplResult _).toOption =
            if isValidAccountNumber number then some number else none := Option.filter_some
        rw [hfilter]
        dsimp only
        by_cases hvalid : isValidAccountNumber number = true
        · rw [if_neg (by simpa using hvalid), if_pos hvalid, Option.some_inj]
          exact mem_accounts_createAccount cp number n
        · rw [if_pos (by simpa using hvalid), if_neg hvalid]
          simp
  | replaceRules acct body =>
    cases body with
    | error rejection => simp [handle, Request.account]
    | ok body =>
      rw [handle, Http.replaceRules, Request.account]
      split_ifs
      · simp
      · rw [Option.some_inj]
        exact mem_accounts_replaceRules cp acct n body
  | replaceUpstreams acct body =>
    cases body with
    | error rejection => simp [handle, Request.account]
    | ok body =>
      rw [handle, Http.replaceUpstreams, Request.account, Option.some_inj]
      exact mem_accounts_replaceUpstreams cp acct n body
  | getAccount | listRules | listUpstreams | listPresets => simp [handle, Request.account]

end

def Request.Valid (cp : InMemControlPlane) (request : Request) : Prop :=
  ∀ n, request.account = some n → n ∈ cp.accounts ∨ isValidAccountNumber n = true

def AllValid (cp : InMemControlPlane) : Prop :=
  ∀ n ∈ cp.accounts, isValidAccountNumber n = true

theorem allValid_handle_iff (cp : InMemControlPlane) (request : Request) :
    AllValid (handle managementStore cp request).2 ↔ AllValid cp ∧ request.Valid cp := by
  unfold AllValid Request.Valid
  simp only [mem_accounts_handle]
  constructor
  · intro h
    exact ⟨fun n hn => h n (.inl hn), fun n hn => .inr (h n (.inr hn))⟩
  · rintro ⟨hall, hvalid⟩ n (hn | hn)
    · exact hall n hn
    · exact (hvalid n hn).elim (hall n) id

/-- Every stored account number is valid after a run exactly when no request of the run created
an account under an invalid number. -/
theorem accounts_valid_iff (requests : List Request) :
    AllValid ((machine managementStore).exec InMemControlPlane.default requests) ↔
      ∀ x ∈ (machine managementStore).history InMemControlPlane.default requests,
        x.2.Valid x.1 := by
  refine (machine managementStore).history_invariant
    (fun h cp => AllValid cp ↔ ∀ x ∈ h, x.2.Valid x.1) _ ?_ ?_ requests
  · have hempty : AllValid InMemControlPlane.default := fun n hn => absurd hn Finmap.notMem_empty
    simpa using hempty
  · intro h cp request hinv
    refine (allValid_handle_iff cp request).trans ?_
    rw [hinv, List.forall_mem_append, List.forall_mem_singleton]

/-- `PUT rules` for a path that is no account number creates an account under it. -/
theorem put_rules_stores_invalid_number :
    "not valid".toList ∈ ((machine managementStore).exec InMemControlPlane.default
        [.replaceRules "not valid".toList (.ok [])]).accounts ∧
      isValidAccountNumber "not valid".toList = false := by
  decide +kernel

end Http

end Brdns
