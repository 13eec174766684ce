import Brdns.Spec.Doh
import Brdns.Spec.Identity

/-! `request_filter` of `lib/receiver/doh.rs`: what a DoH request is answered with. Writing to the
client is taken to succeed. -/

namespace Brdns

open Lib

/-- The status, content type and body of an answer. -/
structure HttpReply where
  status : ℕ
  contentType : Option String
  body : Bytes
  deriving DecidableEq

namespace HttpReply

/-- `respond_error_with_body`. -/
def error (status : ℕ) (message : String) : HttpReply :=
  ⟨status, none, message.toUTF8.data.toList⟩

def dnsMessage (response : Bytes) : HttpReply := ⟨200, some "application/dns-message", response⟩

end HttpReply

namespace DohReceiver

variable {σ τ : Type}

/-- A failure is answered, a panic leaves the request without an answer. -/
def answerFailure (reply : HttpReply) : Failure → CplResult HttpReply
  | .error _ => .ok reply
  | .panic message => .error (.panic message)

/-- The query of a request, or the answer that it is refused with. -/
def queryOf (base64 : Base64) (session : Session τ) (unread : τ) :
    Except (CplResult HttpReply) Bytes :=
  match (extractQuery base64 session unread).1 with
  | .ok (some query) => .ok query
  | .ok none => .error (.ok (.error 400 "missing dns query"))
  | .error e => .error (answerFailure (.error 400 "bad dns query") e)

/-- What the outcome of the pipeline is written back as. -/
def reply : CplResult Bytes → CplResult HttpReply
  | .ok response => .ok (.dnsMessage response)
  | .error e => answerFailure ⟨502, none, []⟩ e

/-- `request_filter`. The pipeline answers with a state of its own, which other requests may
share; `unread` is the connection that the body is read from. -/
def requestFilter (self : DohReceiver) (base64 : Base64)
    (handleQuery : Text → σ → Bytes → CplResult Bytes × σ) (s : σ) (sni : Option Text)
    (session : Session τ) (unread : τ) : CplResult HttpReply × σ :=
  match queryOf base64 session unread with
  | .error refusal => (refusal, s)
  | .ok query =>
    let (response, s) := handleQuery (self.accountFor sni) s query
    (reply response, s)

end DohReceiver

/-- `DohTransport::send_recv` towards a server that answers a GET request for a query string: the
body is taken whatever the status is. -/
def DohTransport.sendRecv (base64 : Base64) (get : Text → CplResult HttpReply) (data : Bytes) :
    CplResult Bytes :=
  (get (query base64 data)).map HttpReply.body

end Brdns
