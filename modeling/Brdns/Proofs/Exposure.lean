import Brdns.Proofs.Authorization
import Brdns.Proofs.InForce

/-! The management port of the running program. Requests without the token, and those that only
ask whether the program is up, can be deleted from any run: nothing else in it changes. -/

namespace Brdns

open Lib

namespace Http

section

variable {σ : Type} {ax : Axum σ} {state : ApiState σ} {ext : Extractors} {req : Incoming}

def handlerOf (ax : Axum σ) (ext : Extractors) (state : ApiState σ) (req : Incoming) :
    Option Handler :=
  (ax.find ((ax.routes (router ax ext state)).map Prod.fst) req).bind fun key =>
    Handler.all.find? fun h => h.key = key

theorem find?_key (h : Handler) : (Handler.all.find? fun h' => h'.key = h.key) = some h := by
  cases hfound : Handler.all.find? fun h' => h'.key = h.key with
  | none =>
    have hnone := List.find?_eq_none.mp hfound h h.mem_all
    simp at hnone
  | some h' =>
    have hkey : h'.key = h.key := by simpa using List.find?_some hfound
    rw [Handler.key_inj hkey]

/-- A request that is for no handler finds the health check, or nothing at all. -/
theorem call_unhandled (hax : ax.Answers) (hnone : handlerOf ax ext state req = none) (s : σ) :
    (ax.call (router ax ext state) req s).state = s := by
  cases hkey : ax.find ((ax.routes (router ax ext state)).map Prod.fst) req with
  | none => exact hax.call_missing _ _ _ hkey
  | some key =>
    obtain ⟨next, hnext, hcall⟩ := hax.call_found _ _ _ hkey
    rw [routes_router hax.toLawful, List.mem_cons, List.mem_map] at hnext
    rcases hnext with heq | ⟨h, -, heq⟩
    · cases heq
      rw [hcall]
      rfl
    · cases heq
      unfold handlerOf at hnone
      rw [hkey, Option.bind_some, find?_key] at hnone
      cases hnone

theorem find_of_handlerOf {h : Handler} (hhandler : handlerOf ax ext state req = some h) :
    ax.find ((ax.routes (router ax ext state)).map Prod.fst) req = some h.key := by
  obtain ⟨key, hkey, hfound⟩ := Option.bind_eq_some_iff.mp hhandler
  have heq : h.key = key := by simpa using List.find?_some hfound
  rw [hkey, heq]

/-- What the control plane is asked for by a request, when the check lets it through. -/
def asked (ax : Axum σ) (ext : Extractors) (state : ApiState σ) (req : Incoming) :
    Option Request :=
  (handlerOf ax ext state req).bind fun h => admitted ax.toStr ext state (h, req)

theorem call_asked (hax : ax.Answers) (s : σ) :
    (ax.call (router ax ext state) req s).state =
      (machine state.cp).exec s (asked ax ext state req).toList := by
  unfold asked
  cases hhandler : handlerOf ax ext state req with
  | none =>
    exact call_unhandled hax hhandler s
  | some h => exact call_state hax.toLawful (find_of_handlerOf hhandler) s

theorem asked_authorized {request : Request} (h : asked ax ext state req = some request) :
    Authorized ax.toStr state req := by
  obtain ⟨handler, -, hadmitted⟩ := Option.bind_eq_some_iff.mp h
  unfold admitted at hadmitted
  exact (Option.ite_none_right_eq_some.mp hadmitted).1

end

end Http

namespace Runtime

variable {σ ω : Type} [Text.UnicodeTables] (store : Store σ ω) (setup : Setup)

def passed (ax : Http.Axum σ) (ext : Http.Extractors) (token : Option Text) :
    Http.Incoming ⊕ Input ω → Option (Input ω)
  | .inl req => (Http.asked ax ext ⟨store.toManagementStore, token⟩ req).map .api
  | .inr i => some i

/-- The input is no request, or one with the token. -/
def Entitled (toStr : Bytes → Option Text) (token : Option Text) : Http.Incoming ⊕ Input ω → Prop
  | .inl req => Http.Authorized toStr ⟨store.toManagementStore, token⟩ req
  | .inr _ => True

instance (toStr : Bytes → Option Text) (token : Option Text) :
    DecidablePred (Entitled store toStr token) := fun x => by
  cases x
  · exact inferInstanceAs (Decidable (Http.Authorized _ _ _))
  · exact isTrue trivial

variable {store setup}

omit [Text.UnicodeTables] in
theorem passed_request (ax : Http.Axum σ) (ext : Http.Extractors) (token : Option Text)
    (req : Http.Incoming) : passed store ax ext token (.inl req : Http.Incoming ⊕ Input ω) =
      (Http.asked ax ext ⟨store.toManagementStore, token⟩ req).map .api := rfl

theorem exposed_step {ax : Http.Axum σ} (hax : ax.Answers) {ext : Http.Extractors}
    {token : Option Text} (s : Runtime σ) (x : Http.Incoming ⊕ Input ω) :
    ((exposed store setup ax ext token).step s x).2 =
      (machine store setup).exec s (passed store ax ext token x).toList := by
  cases x with
  | inr i => rfl
  | inl req =>
    change ({ s with cp := _ } : Runtime σ) = _
    rw [Http.call_asked hax, passed_request]
    cases Http.asked ax ext ⟨store.toManagementStore, token⟩ req <;> rfl

variable (store setup)

/-- Requests to the management port without the token are invisible: with or without them any run
goes through the same states with the same reactions to everything else. What the others do is
what the requests do that their handlers get. -/
theorem unauthorized_invisible (ax : Http.Axum σ) (hax : ax.Answers) (ext : Http.Extractors)
    (token : Option Text) (s : Runtime σ) (xs : List (Http.Incoming ⊕ Input ω)) :
    let m := exposed store setup ax ext token
    let entitled := Entitled store ax.toStr token
    m.exec s xs = (machine store setup).exec s (xs.filterMap (passed store ax ext token)) ∧
      m.exec s (xs.filter entitled) = m.exec s xs ∧
      m.trace s (xs.filter entitled) = (m.trace s xs).filter fun x => entitled x.1 := by
  have hstep (s : Runtime σ) (x : Http.Incoming ⊕ Input ω) :
      ((exposed store setup ax ext token).step s x).2 =
        (machine store setup).exec s (passed store ax ext token x).toList := exposed_step hax s x
  refine ⟨Machine.exec_filterMap _ _ _ (fun s x _ => hstep s x) s, ?_⟩
  refine Machine.invisible _ (Entitled store ax.toStr token) (fun s x _ hnot => ?_) s
  rw [hstep s x]
  cases x with
  | inr i => exact absurd trivial hnot
  | inl req =>
    rw [passed_request]
    cases hasked : Http.asked ax ext ⟨store.toManagementStore, token⟩ req with
    | none => rfl
    | some request => exact absurd (Http.asked_authorized hasked) hnot

end Runtime

section

attribute [local instance] Text.asciiTables

def putRequest (token : Text) : Http.Incoming :=
  ⟨"PUT".toList, "/api/accounts/1/rules".toList,
    [(Http.authorization, Text.bytes (Http.bearer ++ token))], [], []⟩

def oneRule : Http.Extractors :=
  ⟨fun _ => .ok ['1'], fun _ => .ok ['1'], fun _ => .ok [denyB], fun _ => .ok []⟩

theorem Http.Axum.table_answers (σ : Type) : (Axum.table σ).Answers where
  __ := table_lawful σ
  call_missing r req s hfind := by
    have hfind : findRoute (r.map Prod.fst) req = none := hfind
    simp only [table, hfind, Option.bind_none]

/-- A guess at the token does nothing. -/
theorem unauthorized_invisible_guess :
    let m := Runtime.exposed InMemControlPlane.store plainSetup (Http.Axum.table _) oneRule
      (some "test-token".toList)
    let (_, s) := Runtime.start InMemControlPlane.store plainSetup .default (calmBoot 0)
    m.exec s [.inr (.fetch none)] = m.exec s [.inl (putRequest "guess".toList), .inr (.fetch none)] := by
  have hinvisible := (Runtime.unauthorized_invisible InMemControlPlane.store plainSetup
    (Http.Axum.table _) (Http.Axum.table_answers _) oneRule (some "test-token".toList)
    (Runtime.start InMemControlPlane.store plainSetup .default (calmBoot 0)).2
    [.inl (putRequest "guess".toList), .inr (.fetch none)]).2.1
  rw [List.filter_cons_of_neg (by decide +kernel)] at hinvisible
  exact hinvisible

end

end Brdns
