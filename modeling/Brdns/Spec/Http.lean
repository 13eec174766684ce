import Brdns.Lib.Machine
import Brdns.Spec.InMem

/-! `lib/controlplane/http` past its token check, over any control plane: what each route of the
management API answers and does to the store. -/

namespace Brdns

open Lib

/-! ### Account numbers, `lib/model/input.rs` -/

/-- 1-64 characters, alphanumeric or hyphen. -/
def isValidAccountNumber (s : Text) : Bool :=
  !s.isEmpty && Text.len s ≤ 64 && s.all fun c => c.isAlphanum || c == '-'

/-- The loop of `generate_account_number` on the octets the random source gives; it panics when
the source fails. Octets from 250 on are rejected, so that all digits are as likely. -/
def generateDigits (out : Text) : List UInt8 → CplResult Text
  | [] => if out.length < 16 then .error (.panic "openssl rand_bytes failed") else .ok out
  | b :: random =>
    if out.length < 16 then
      if b < 250 then generateDigits (out ++ [Nat.digitChar (b % 10).toNat]) random
      else generateDigits out random
    else .ok out

def generateAccountNumber (random : List UInt8) : CplResult Text := generateDigits [] random

/-! ### The store behind the API -/

/-- What the management API uses of a control plane with state `σ`. -/
structure ManagementStore (σ : Type) where
  createAccount : σ → Text → CplResult Account × σ
  getAccount : σ → Text → CplResult (Option Account)
  rules : σ → Text → CplResult (List Rule)
  replaceRules : σ → Text → List NewRule → CplResult (List Rule) × σ
  listUpstreams : σ → Text → CplResult (List Upstream)
  replaceUpstreams : σ → Text → List NewUpstream → CplResult (List Upstream) × σ
  presetUpstreams : σ → CplResult (List Upstream)

def InMemControlPlane.managementStore : ManagementStore InMemControlPlane where
  createAccount self n := ((.ok (self.createAccount n).1), (self.createAccount n).2)
  getAccount self n := .ok (self.getAccount n)
  rules self n := .ok (self.rules n)
  replaceRules := replaceRules
  listUpstreams self n := .ok (self.listUpstreams n)
  replaceUpstreams := replaceUpstreams
  presetUpstreams self := .ok self.presetUpstreams

/-! ### Routes -/

namespace Http

inductive Body where
  | error (message : String)
  | account (account : Account)
  | rules (rules : List Rule)
  | upstreams (upstreams : List Upstream)
  deriving DecidableEq

structure Response where
  status : ℕ
  body : Body
  deriving DecidableEq

def err (status : ℕ) (message : String) : Response := ⟨status, .error message⟩

/-- An error of the store is an internal one; a panic leaves the request without an answer. -/
def internalError : Failure → CplResult Response
  | .error message => .ok (err 500 message)
  | .panic message => .error (.panic message)

/-- The answer for the outcome of a store call. -/
def answer {α : Type} (ok : α → Response) : CplResult α → CplResult Response
  | .ok a => .ok (ok a)
  | .error e => internalError e

/-- A request as its handler gets it. A body is what the JSON extractor made of it: the payload,
or the answer it rejects the request with. -/
inductive Request where
  | createAccount (body : Except Response Text) (random : List UInt8)
  | getAccount (acct : Text)
  | listRules (acct : Text)
  | replaceRules (acct : Text) (body : Except Response (List NewRule))
  | listUpstreams (acct : Text)
  | replaceUpstreams (acct : Text) (body : Except Response (List NewUpstream))
  | listPresets

/-- The check of one rule in the handler of `PUT rules`. -/
def invalidRule (r : NewRule) : Bool :=
  r.targetValue.isEmpty || Text.len r.targetValue > 253 || r.limitCount.any fun c => c < 0

/-- The number to create an account under: generated when the request names none. -/
def requestedNumber (accountNumber : Text) (random : List UInt8) : CplResult Text :=
  if accountNumber.isEmpty then generateAccountNumber random else .ok accountNumber

section

variable {σ : Type} (store : ManagementStore σ) (s : σ)

def createAccount (accountNumber : Text) (random : List UInt8) : CplResult Response × σ :=
  match requestedNumber accountNumber random with
  | .error e => (.error e, s)
  | .ok number =>
    if !isValidAccountNumber number then
      (.ok (err 400 "account_number must be 1-64 chars of [a-zA-Z0-9-]"), s)
    else
      let (account, s) := store.createAccount s number
      (answer (fun account => ⟨201, .account account⟩) account, s)

def getAccount (acct : Text) : CplResult Response :=
  match store.getAccount s acct with
  | .ok none => .ok (err 404 "account not found")
  | .ok (some account) => .ok ⟨200, .account account⟩
  | .error e => internalError e

def listRules (acct : Text) : CplResult Response :=
  answer (fun rules => ⟨200, .rules rules⟩) (store.rules s acct)

def replaceRules (acct : Text) (body : List NewRule) : CplResult Response × σ :=
  if body.any invalidRule then
    (.ok (err 400 "invalid rule: target_value must be 1-253 chars; limit_count >= 0"), s)
  else
    let (rules, s) := store.replaceRules s acct body
    (answer (fun rules => ⟨200, .rules rules⟩) rules, s)

def listUpstreams (acct : Text) : CplResult Response :=
  answer (fun ups => ⟨200, .upstreams ups⟩) (store.listUpstreams s acct)

def replaceUpstreams (acct : Text) (body : List NewUpstream) : CplResult Response × σ :=
  let (ups, s) := store.replaceUpstreams s acct body
  (answer (fun ups => ⟨200, .upstreams ups⟩) ups, s)

def listPresets : CplResult Response :=
  answer (fun presets => ⟨200, .upstreams presets⟩) (store.presetUpstreams s)

def handle : Request → CplResult Response × σ
  | .createAccount (.ok accountNumber) random => createAccount store s accountNumber random
  | .getAccount acct => (getAccount store s acct, s)
  | .listRules acct => (listRules store s acct, s)
  | .replaceRules acct (.ok body) => replaceRules store s acct body
  | .listUpstreams acct => (listUpstreams store s acct, s)
  | .replaceUpstreams acct (.ok body) => replaceUpstreams store s acct body
  | .listPresets => (listPresets store s, s)
  | .createAccount (.error rejection) _ | .replaceRules _ (.error rejection)
  | .replaceUpstreams _ (.error rejection) => (.ok rejection, s)

end

/-- The management API as a machine: authorised requests in any order. -/
def machine {σ : Type} (store : ManagementStore σ) :
    Machine σ Request (CplResult Response) := ⟨handle store⟩

end Http

end Brdns
