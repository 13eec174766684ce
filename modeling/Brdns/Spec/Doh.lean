import Brdns.Spec.Buffer
import Brdns.Spec.Model

/-! How `lib/receiver/doh.rs` takes a DNS query out of a request, and the request in which
`lib/transport/doh.rs` puts one. -/

namespace Brdns

open Lib

/-! ### `percent_decode` -/

/-- The panic of a slice that is not made of whole characters. -/
def notCharBoundary : Failure := .panic "byte index is not a char boundary"

/-- The loop: at byte `i` of the input, with `out` written so far. -/
def percentDecodeLoop (input : Text) (i : ℕ) (out : List UInt8) : CplResult (List UInt8) :=
  if h : i < (Text.bytes input).length then
    let copied := percentDecodeLoop input (i + 1) (out ++ [(Text.bytes input)[i]])
    if (Text.bytes input)[i] == 0x25 && i + 2 < (Text.bytes input).length then
      match Text.slice input (i + 1) (i + 3) with
      | none => .error notCharBoundary
      | some hex =>
        match Text.u8FromStrRadix hex 16 with
        | some v => percentDecodeLoop input (i + 3) (out ++ [v])
        | none => copied
    else copied
  else .ok out
  termination_by (Text.bytes input).length - i

def percentDecode (input : Text) : CplResult Text :=
  (percentDecodeLoop input 0 []).map Text.fromUtf8Lossy

example : percentDecode "a%2Fb%zz%".toList = .ok "a/b%zz%".toList := by decide +kernel

/-! ### Requests -/

/-- What the program uses of the `base64` crate: `URL_SAFE_NO_PAD`. -/
structure Base64 where
  encode : Bytes → Text
  decode : Text → CplResult Bytes

inductive Method where
  | GET
  | POST
  | other (token : Text)
  deriving DecidableEq

def dnsPrefix : Text := ['d', 'n', 's', '=']

/-- The value of the first parameter whose text starts with `dns=`. -/
def dnsQueryParam (query : Option Text) : Option Text :=
  query.bind fun query => (Text.split '&' query).findSome? (Text.stripPrefix dnsPrefix)

/-- A request as the filter gets it from the server: the method and query of its header, and the
call that reads the next chunk of its body. -/
structure Session (σ : Type) where
  method : Method
  query : Option Text
  readRequestBody : σ → CplResult (Option Bytes) × σ

/-- The query of a GET request. -/
def extractParam (base64 : Base64) (query : Option Text) : CplResult (Option Bytes) :=
  match dnsQueryParam query with
  | none => .ok none
  | some param =>
    match percentDecode param with
    | .error e => .error e
    | .ok text => (base64.decode text).map some

/-- `extract_query`, on a connection whose unread body is `s`. -/
def extractQuery {σ : Type} (base64 : Base64) (session : Session σ) (s : σ) :
    CplResult (Option Bytes) × σ :=
  match session.method with
  | .GET => (extractParam base64 session.query, s)
  | .POST =>
    match session.readRequestBody s with
    | (.error e, s) => (.error e, s)
    | (.ok none, s) => (.ok none, s)
    | (.ok (some body), s) => (.ok (some body), s)
  | .other _ => (.ok none, s)

/-- The query string in which `DohTransport::send_recv` sends a message; no character of the encoded
message needs an escape. -/
def DohTransport.query (base64 : Base64) (data : Bytes) : Text := dnsPrefix ++ base64.encode data

end Brdns
