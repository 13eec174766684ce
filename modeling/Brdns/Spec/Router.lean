import Brdns.Spec.Buffer
import Brdns.Spec.Http

/-! `auth.rs` and `router.rs` of `lib/controlplane/http`: the token check and the routes it stands
in front of, over what they use of axum and of its header values. -/

namespace Brdns

open Lib

namespace Http

/-! ### Requests and services -/

/-- The handlers of the management API. -/
inductive Handler where
  | createAccount | getAccount | listRules | replaceRules | listUpstreams | replaceUpstreams
  | listPresets
  deriving DecidableEq

/-- A request as it arrives, with its header names in lower case, as `HeaderName` keeps them.
`random` is what the random source gives while it is handled. -/
structure Incoming where
  method : Text
  path : Text
  headers : List (Text × Bytes)
  body : Bytes
  random : List UInt8

/-- `HeaderMap::get`: the first value under a name. -/
def Incoming.header (self : Incoming) (name : Text) : Option Bytes :=
  (self.headers.find? fun h => h.1 = name).map Prod.snd

inductive Reply where
  | healthz
  | api (response : Response)
  deriving DecidableEq

/-- What a service gives back, and which management handler was reached, if one was. -/
structure Outcome (σ : Type) where
  reached : Option Handler
  answer : CplResult Reply
  state : σ

abbrev Service (σ : Type) := Incoming → σ → Outcome σ

/-! ### The token check, `auth.rs` -/

structure ApiState (σ : Type) where
  cp : ManagementStore σ
  token : Option Text

def constantTimeEq (a b : Bytes) : Bool :=
  if a.length ≠ b.length then false
  else (a.zip b).foldl (fun diff x => diff ||| (x.1 ^^^ x.2)) 0 == 0

def authorization : Text := "authorization".toList

def bearer : Text := "Bearer ".toList

section

variable {σ : Type}

def refuse (message : String) (s : σ) : Outcome σ := ⟨none, .ok (.api (err 401 message)), s⟩

/-- `toStr` is `HeaderValue::to_str`, `next` what the layer stands in front of. -/
def auth (toStr : Bytes → Option Text) (state : ApiState σ) (next : Service σ) : Service σ :=
  fun req s =>
    match state.token with
    | none => refuse "management API disabled: no api_token configured" s
    | some expected =>
      let authorized := (((req.header authorization).bind toStr).bind (Text.stripPrefix bearer)).map
        fun token => constantTimeEq (Text.bytes token) (Text.bytes expected)
      if authorized.getD false then next req s else refuse "unauthorized" s

/-! ### Handlers as services -/

/-- The extractors in the handlers' arguments: a value, or the answer to reject the request with. -/
structure Extractors where
  acct : Incoming → Except Response Text
  newAccount : Incoming → Except Response Text
  newRules : Incoming → Except Response (List NewRule)
  newUpstreams : Incoming → Except Response (List NewUpstream)

/-- The request as its handler gets it. A path is extracted before a body. -/
def extract (ext : Extractors) (req : Incoming) : Handler → Except Response Request
  | .createAccount => .ok (.createAccount (ext.newAccount req) req.random)
  | .getAccount => (ext.acct req).map .getAccount
  | .listRules => (ext.acct req).map .listRules
  | .replaceRules => (ext.acct req).map fun acct => .replaceRules acct (ext.newRules req)
  | .listUpstreams => (ext.acct req).map .listUpstreams
  | .replaceUpstreams =>
    (ext.acct req).map fun acct => .replaceUpstreams acct (ext.newUpstreams req)
  | .listPresets => .ok .listPresets

def service (store : ManagementStore σ) (ext : Extractors) (handler : Handler) : Service σ :=
  fun req s =>
    match extract ext req handler with
    | .error rejection => ⟨some handler, .ok (.api rejection), s⟩
    | .ok request =>
      let (answer, s) := handle store s request
      ⟨some handler, answer.map .api, s⟩

def healthz : Service σ := fun _ s => ⟨none, .ok .healthz, s⟩

end

/-! ### Routes, `router.rs` -/

inductive MethodFilter where
  | GET | POST | PUT
  deriving DecidableEq

/-- A path as it is registered, with one of its methods. -/
abbrev RouteKey := String × MethodFilter

/-- What the API uses of axum. `routes` are the routes of a router with the layers around their
handlers; `find` is which of the registered routes a request goes to, by its path and method. -/
structure Axum (σ : Type) where
  Router : Type
  new : Router
  route : String → List (MethodFilter × Service σ) → Router → Router
  layer : (Service σ → Service σ) → Router → Router
  merge : Router → Router → Router
  routes : Router → List (RouteKey × Service σ)
  find : List RouteKey → Incoming → Option RouteKey
  call : Router → Service σ
  toStr : Bytes → Option Text

/-- A layer is put around every route that is already there and around no other, and merging keeps
the layers; a header value is read as text only octet by octet, and always when it is visible. -/
structure Axum.Lawful {σ : Type} (ax : Axum σ) : Prop where
  routes_new : ax.routes ax.new = []
  routes_route : ∀ path methods r, ax.routes (ax.route path methods r) =
    ax.routes r ++ methods.map fun m => ((path, m.1), m.2)
  routes_layer : ∀ f r, ax.routes (ax.layer f r) = (ax.routes r).map fun x => (x.1, f x.2)
  routes_merge : ∀ r r', ax.routes (ax.merge r r') = ax.routes r ++ ax.routes r'
  call_found : ∀ r req key, ax.find ((ax.routes r).map Prod.fst) req = some key →
    ∃ next, (key, next) ∈ ax.routes r ∧ ax.call r req = next req
  toStr_octets : ∀ v t, ax.toStr v = some t → Text.bytes t = v
  toStr_visible : ∀ v, (∀ b ∈ v, 32 ≤ b.toNat ∧ b.toNat < 127) → ∃ t, ax.toStr v = some t

/-- A request that no route takes gets axum's own answer, whatever layers that answer passes. -/
structure Axum.Answers {σ : Type} (ax : Axum σ) : Prop extends ax.Lawful where
  call_missing : ∀ r req s, ax.find ((ax.routes r).map Prod.fst) req = none →
    (ax.call r req s).state = s

def router {σ : Type} (ax : Axum σ) (ext : Extractors) (state : ApiState σ) : ax.Router :=
  let run := service state.cp ext
  let authed := ax.new
    |> ax.route "/api/accounts" [(.POST, run .createAccount)]
    |> ax.route "/api/accounts/{acct}" [(.GET, run .getAccount)]
    |> ax.route "/api/accounts/{acct}/rules" [(.GET, run .listRules), (.PUT, run .replaceRules)]
    |> ax.route "/api/accounts/{acct}/upstreams"
        [(.GET, run .listUpstreams), (.PUT, run .replaceUpstreams)]
    |> ax.route "/api/upstreams/presets" [(.GET, run .listPresets)]
    |> ax.layer (auth ax.toStr state)
  ax.merge (ax.route "/healthz" [(.GET, healthz)] ax.new) authed

end Http

end Brdns
