import Brdns.Lib.Framing
import Brdns.Spec.Buffer
import Brdns.Spec.Identity
import Brdns.Spec.Model

/-! The DoT connections: `process_new` of `lib/receiver/dot.rs` towards a client and `send_recv` of
`lib/transport/dot.rs` towards an upstream. -/

namespace Brdns

open Lib Framing

/-- `(message.len() as u16).to_be_bytes()`, then the message. -/
def withLengthPrefix (message : Bytes) : Bytes :=
  prefixed (UInt16.ofNat message.length) message

namespace DotApp

variable {σ : Type}

/-- The loop of `process_new`: from what the client sends until it closes, what is written back.
The pipeline answers with a state of its own, which other connections may share. -/
def serve (handleQuery : σ → Bytes → CplResult Bytes × σ) (s : σ) (input : Bytes) : Bytes × σ :=
  -- the two `read_exact` calls; a client that closes ends the loop in either
  match _ : readFrame input with
  | none => ([], s)
  | some (query, input) =>
    match handleQuery s query with
    | (.error _, s) => ([], s)
    | (.ok response, s) =>
      let (written, s) := serve handleQuery s input
      (withLengthPrefix response ++ written, s)
  termination_by input.length
  decreasing_by exact readFrame_length ‹_›

/-- A whole connection: the account is fixed by the handshake. -/
def processNew (self : DotApp) (handleQuery : Text → σ → Bytes → CplResult Bytes × σ) (s : σ)
    (sni : Option Text) (input : Bytes) : Bytes × σ :=
  serve (handleQuery (self.accountFor sni)) s input

end DotApp

/-- The far end of one upstream connection: whether connecting and writing succeed, and the octets
it sends back before it closes. -/
structure Peer where
  connect : CplResult Unit
  accept : Bytes → CplResult Unit
  reply : Bytes → Bytes

namespace DotTransport

/-- The result of `send_recv`, and what it has written by then. -/
def sendRecv (peer : Peer) (data : Bytes) : CplResult Bytes × Bytes :=
  match peer.connect with
  | .error e => (.error e, [])
  | .ok () =>
    let written := withLengthPrefix data
    match peer.accept written with
    | .error e => (.error e, written)
    | .ok () =>
      match readFrame (peer.reply written) with
      | none => (.error (.error "early eof"), written)
      | some (resp, _) => (.ok resp, written)

end DotTransport

end Brdns
