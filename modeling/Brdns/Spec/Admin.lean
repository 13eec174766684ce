import Brdns.Spec.Enums
import Brdns.Spec.Router

/-! `bin/admin.rs` with the JSON values that go over the wire: `rules add`, a request for the current
list and one that replaces it, any number of such commands at once, and the commands of one
request. -/

namespace Brdns

open Lib

/-- A JSON value whose numbers are integers. -/
inductive Json where
  | null
  | bool (b : Bool)
  | number (n : ℤ)
  | string (s : Text)
  | array (vs : List Json)
  | object (fields : List (String × Json))

namespace Json

/-- `v[key]`, null where there is no such field. -/
def get (self : Json) (key : String) : Json :=
  match self with
  | object fields => (fields.lookup key).getD null
  | _ => null

def ofOption (v : Option Json) : Json := v.getD null

def asBool : Json → Option Bool
  | bool b => some b
  | _ => none

/-- The values of the type `i64`. -/
def IsI64 (n : ℤ) : Prop := -2 ^ 63 ≤ n ∧ n < 2 ^ 63

instance (n : ℤ) : Decidable (IsI64 n) := inferInstanceAs (Decidable (_ ∧ _))

def asInt : Json → Option ℤ
  | number n => if IsI64 n then some n else none
  | _ => none

def asText : Json → Option Text
  | string s => some s
  | _ => none

/-- An enumeration without data: its literal, alone or as the key of a null. -/
def asVariant {α : Type} (fromStr : Text → CplResult α) : Json → Option α
  | string s => (fromStr s).toOption
  | object [(s, null)] => (fromStr s.toList).toOption
  | _ => none

/-- A field of an optional type, where null is no value. -/
def asOption {α : Type} (read : Json → Option α) : Json → Option (Option α)
  | null => some none
  | v => (read v).map some

def asList {α : Type} (read : Json → Option α) : Json → Option (List α)
  | array vs => vs.mapM read
  | _ => none

/-! The text that `serde_json` writes for a body, without any space. -/

def digits (n : ℤ) : Text := (if n < 0 then ['-'] else []) ++ Nat.toDigits 10 n.natAbs

/-- Control characters have a letter or their code in hexadecimal. -/
def escape (c : Char) : Text :=
  match c.toNat with
  | 8 => ['\\', 'b']
  | 9 => ['\\', 't']
  | 10 => ['\\', 'n']
  | 12 => ['\\', 'f']
  | 13 => ['\\', 'r']
  | n =>
    if c = '"' ∨ c = '\\' then ['\\', c]
    else if n < 32 then ['\\', 'u', '0', '0', Nat.digitChar (n / 16), Nat.digitChar (n % 16)]
    else [c]

def quote (s : Text) : Text := '"' :: s.flatMap escape ++ ['"']

mutual

def render : Json → Text
  | null => "null".toList
  | bool b => (if b then "true" else "false").toList
  | number n => digits n
  | string s => quote s
  | array vs => '[' :: renderValues vs ++ [']']
  | object fields => "\x7b".toList ++ renderFields fields ++ "\x7d".toList

def renderValues : List Json → Text
  | [] => []
  | [v] => render v
  | v :: vs => render v ++ ',' :: renderValues vs

def renderFields : List (String × Json) → Text
  | [] => []
  | [(key, v)] => quote key.toList ++ ':' :: render v
  | (key, v) :: fields => quote key.toList ++ ':' :: render v ++ ',' :: renderFields fields

end

/-- The octets of a body. -/
def size (self : Json) : ℕ := (Text.bytes self.render).length

end Json

/-! ### Serialisation, `lib/model` -/

def Account.toJson (self : Account) : Json :=
  .object [("id", .number self.id), ("account_number", .string self.accountNumber)]

def Rule.toJson (self : Rule) : Json :=
  .object [("id", .number self.id),
    ("account_id", .number self.accountId),
    ("position", .number self.position),
    ("action", .string self.action.asStr),
    ("target_type", .string self.targetType.asStr),
    ("target_value", .string self.targetValue),
    ("limit_count", .ofOption (self.limitCount.map .number)),
    ("limit_window", .ofOption (self.limitWindow.map fun w => .string w.asStr)),
    ("enabled", .bool self.enabled)]

def Upstream.toJson (self : Upstream) : Json :=
  .object [("id", .number self.id),
    ("account_id", .ofOption (self.accountId.map .number)),
    ("name", .string self.name),
    ("protocol", .string self.protocol.asStr),
    ("host", .string self.host),
    ("port", .number self.port.toNat),
    ("addr", .ofOption (self.addr.map .string)),
    ("is_preset", .bool self.isPreset)]

def Http.Body.toJson : Http.Body → Json
  | .error message => .object [("error", .string message.toList)]
  | .account a => a.toJson
  | .rules rs => .array (rs.map Rule.toJson)
  | .upstreams us => .array (us.map Upstream.toJson)

/-- `NewAccount`, whose only field has a default. -/
def NewAccount.ofJson : Json → Option Text
  | .object fields => ((fields.lookup "account_number").getD (.string [])).asText
  | .array [] => some []
  | .array [v] => v.asText
  | _ => none

namespace NewRule

def fieldNames : List String :=
  ["action", "target_type", "target_value", "limit_count", "limit_window", "enabled"]

/-- The fields with a default may be missing; unknown fields are ignored. -/
def ofFields (fields : List (String × Json)) : Option NewRule := do
  let action ← (fields.lookup "action").bind (Json.asVariant Action.fromStr)
  let targetType ← (fields.lookup "target_type").bind (Json.asVariant TargetType.fromStr)
  let targetValue ← (fields.lookup "target_value").bind Json.asText
  let limitCount ← Json.asOption Json.asInt (.ofOption (fields.lookup "limit_count"))
  let limitWindow ←
    Json.asOption (Json.asVariant Window.fromStr) (.ofOption (fields.lookup "limit_window"))
  let enabled ← ((fields.lookup "enabled").getD (.bool true)).asBool
  return { action, targetType, targetValue, limitCount, limitWindow, enabled }

/-- A structure may also come as the list of its fields' values. -/
def ofJson : Json → Option NewRule
  | .object fields => ofFields fields
  | .array vs => if vs.length ≤ fieldNames.length then ofFields (fieldNames.zip vs) else none
  | _ => none

end NewRule

/-- A number of the type `u16`. -/
def Json.asPort : Json → Option UInt16
  | .number n => if 0 ≤ n ∧ n < 65536 then some (UInt16.ofNat n.toNat) else none
  | _ => none

namespace NewUpstream

def fieldNames : List String := ["name", "protocol", "host", "port", "addr"]

def ofFields (fields : List (String × Json)) : Option NewUpstream := do
  let name ← (fields.lookup "name").bind Json.asText
  let protocol ← (fields.lookup "protocol").bind (Json.asVariant UpstreamProtocol.fromStr)
  let host ← (fields.lookup "host").bind Json.asText
  let port ← (fields.lookup "port").bind Json.asPort
  let addr ← Json.asOption Json.asText (.ofOption (fields.lookup "addr"))
  return { name, protocol, host, port, addr }

def ofJson : Json → Option NewUpstream
  | .object fields => ofFields fields
  | .array vs => if vs.length ≤ fieldNames.length then ofFields (fieldNames.zip vs) else none
  | _ => none

end NewUpstream

/-! ### The command -/

namespace Admin

inductive ActionArg where
  | Allow
  | Deny
  | Limit
  deriving DecidableEq

inductive TargetArg where
  | Domain
  | Wildcard
  | Category
  deriving DecidableEq

inductive WindowArg where
  | Hour
  | Day
  | Week
  | Month
  deriving DecidableEq

def ActionArg.toString : ActionArg → String
  | Allow => "allow"
  | Deny => "deny"
  | Limit => "limit"

def TargetArg.toString : TargetArg → String
  | Domain => "domain"
  | Wildcard => "wildcard"
  | Category => "category"

def WindowArg.toString : WindowArg → String
  | Hour => "hour"
  | Day => "day"
  | Week => "week"
  | Month => "month"

/-- `rules <account> add`, for the account that is read from the path of its requests. -/
structure Add where
  account : Text
  action : ActionArg
  target : TargetArg
  value : Text
  limit : Option ℤ
  window : Option WindowArg
  deriving DecidableEq

namespace Add

/-- A rule of the fetched list as it is sent back. -/
def resubmit (r : Json) : Json :=
  .object [("action", r.get "action"),
    ("target_type", r.get "target_type"),
    ("target_value", r.get "target_value"),
    ("limit_count", r.get "limit_count"),
    ("limit_window", r.get "limit_window"),
    ("enabled", r.get "enabled")]

def rule (self : Add) : Json :=
  .object [("action", .string self.action.toString.toList),
    ("target_type", .string self.target.toString.toList),
    ("target_value", .string self.value),
    ("limit_count", .ofOption (self.limit.map .number)),
    ("limit_window", .ofOption (self.window.map fun w => .string w.toString.toList)),
    ("enabled", .bool true)]

/-- The body of the second request. -/
def rules (self : Add) (current : List Json) : Json :=
  .array (current.map resubmit ++ [self.rule])

end Add

/-- What `request` makes of an answer: the JSON of a success. -/
def request : CplResult Http.Response → Option Json
  | .ok response =>
    if 200 ≤ response.status ∧ response.status ≤ 299 then some response.body.toJson else none
  | .error _ => none

/-- A command between its two requests, with the list it fetched. -/
structure Waiting where
  add : Add
  current : List Json

/-- The store of the server and the commands under way. -/
structure State (σ : Type) where
  store : σ
  waiting : List Waiting

/-- The next request that reaches the server: the first of a new command, or the second of the
`i`-th one under way. -/
inductive Event where
  | fetch (add : Add)
  | replace (i : ℕ)

section

/-- What axum reads of a body. -/
def bodyLimit : ℕ := 2097152

variable {σ : Type} (store : ManagementStore σ) (reject : Json → String)

/-- The JSON extractor of a type. `reject` is the text of its answer to a value of another type; no
command reads the texts of such answers. -/
def extractJson {α : Type} (ofJson : Json → Option α) (v : Json) : Except Http.Response α :=
  if bodyLimit < v.size then
    .error (Http.err 413 "Failed to buffer the request body: length limit exceeded")
  else
    match ofJson v with
    | some a => .ok a
    | none => .error (Http.err 422 (reject v))

/-- The extractor of `PUT rules`. -/
def extract : Json → Except Http.Response (List NewRule) :=
  extractJson reject (Json.asList NewRule.ofJson)

/-- Handles one request; the output says whether it succeeded. -/
def step (s : State σ) : Event → Bool × State σ
  | .fetch add =>
    let (response, after) := Http.handle store s.store (.listRules add.account)
    match request response with
    | some (.array current) => (true, ⟨after, s.waiting ++ [⟨add, current⟩]⟩)
    | _ => (false, { s with store := after })
  | .replace i =>
    match s.waiting[i]? with
    | none => (false, s)
    | some w =>
      let (response, after) := Http.handle store s.store
        (.replaceRules w.add.account (extract reject (w.add.rules w.current)))
      ((request response).isSome, ⟨after, s.waiting.eraseIdx i⟩)

/-- Any number of commands, their requests in any order. -/
def machine : Machine (State σ) Event Bool := ⟨step store reject⟩

/-! ### Commands of one request -/

/-- `set` sends what its file holds. -/
inductive Command where
  | account (accountNumber : Option Text)
  | presets
  | rulesList (account : Text)
  | rulesSet (account : Text) (body : Json)
  | upstreamsList (account : Text)
  | upstreamsSet (account : Text) (body : Json)

/-- A request as `request` gets it. -/
structure Sent where
  method : Http.MethodFilter
  path : Text
  body : Option Json

/-- The account is put into the path as it is. -/
def rulesPath (account : Text) : Text := "/api/accounts/".toList ++ account ++ "/rules".toList

def upstreamsPath (account : Text) : Text :=
  "/api/accounts/".toList ++ account ++ "/upstreams".toList

def Command.sent : Command → Sent
  | account accountNumber => ⟨.POST, "/api/accounts".toList,
      some (.object [("account_number", .string (accountNumber.getD []))])⟩
  | presets => ⟨.GET, "/api/upstreams/presets".toList, none⟩
  | rulesList acct => ⟨.GET, rulesPath acct, none⟩
  | rulesSet acct body => ⟨.PUT, rulesPath acct, some body⟩
  | upstreamsList acct => ⟨.GET, upstreamsPath acct, none⟩
  | upstreamsSet acct body => ⟨.PUT, upstreamsPath acct, some body⟩

/-- What becomes of a path from reqwest's URL to the arguments of a handler: the handler that the
router of axum finds and the account that its `Path` reads, or an answer of axum's own. -/
abbrev Routing := Http.MethodFilter → Text → Except Http.Response (Http.Handler × Text)

/-- A number that the API gives to accounts is read back from its path as it was put there. -/
structure Routing.Lawful (route : Routing) : Prop where
  listRules : ∀ n, isValidAccountNumber n → route .GET (rulesPath n) = .ok (.listRules, n)
  replaceRules : ∀ n, isValidAccountNumber n → route .PUT (rulesPath n) = .ok (.replaceRules, n)
  listUpstreams : ∀ n, isValidAccountNumber n →
    route .GET (upstreamsPath n) = .ok (.listUpstreams, n)
  replaceUpstreams : ∀ n, isValidAccountNumber n →
    route .PUT (upstreamsPath n) = .ok (.replaceUpstreams, n)

/-- A body that a handler asks for. -/
def extractBody {α : Type} (ofJson : Json → Option α) : Option Json → Except Http.Response α
  | some v => extractJson reject ofJson v
  | none => .error (Http.err 415 "Expected request with `Content-Type: application/json`")

/-- The request as its handler gets it, with the random octets of the server. -/
def handled (random : List UInt8) (body : Option Json) (account : Text) :
    Http.Handler → Http.Request
  | .createAccount => .createAccount (extractBody reject NewAccount.ofJson body) random
  | .getAccount => .getAccount account
  | .listRules => .listRules account
  | .replaceRules => .replaceRules account (extractBody reject (Json.asList NewRule.ofJson) body)
  | .listUpstreams => .listUpstreams account
  | .replaceUpstreams =>
    .replaceUpstreams account (extractBody reject (Json.asList NewUpstream.ofJson) body)
  | .listPresets => .listPresets

variable (route : Routing)

/-- The answer of a server that takes the token of the request. -/
def serve (random : List UInt8) (s : σ) (sent : Sent) : CplResult Http.Response × σ :=
  match route sent.method sent.path with
  | .error response => (.ok response, s)
  | .ok (handler, account) =>
    Http.handle store s (handled reject random sent.body account handler)

/-- What the command prints; nothing where it fails. -/
def Command.run (random : List UInt8) (s : σ) (self : Command) : Option Json × σ :=
  let (response, s) := serve store reject route random s self.sent
  (request response, s)

end

end Admin

end Brdns
