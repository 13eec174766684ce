import Brdns.Proofs.DohQuery
import Brdns.Proofs.Enforcement
import Brdns.Proofs.Framing
import Brdns.Spec.ControlPlane
import Brdns.Spec.DohReceiver

/-! Instances behind one another: the upstream of one is a receiver of the next. What a transport
puts on the wire is what the receiver of the same kind takes off it, and so on the way back, so the
instances between a client and the one that answers cannot be told from a direct connection, but
for one thing: DoH transports take the body of an error for a message. -/

namespace Brdns

open Lib Framing

structure Hop where
  σ : Type
  store : ControlPlane σ
  state : Deployment σ
  policy : BlockPolicy
  server : ServerConfig
  sni : Option Text
  now : ℤ

namespace Hop

variable [Text.UnicodeTables] (hop : Hop) (sendRecv : Transport → Bytes → CplResult Bytes)

def handleQuery (account : Text) (s : Deployment hop.σ) (raw : Bytes) :
    CplResult Bytes × Deployment hop.σ :=
  let (answer, s) := s.handleInner hop.store ⟨hop.now, sendRecv⟩ hop.policy account raw
  (answer.result, s)

def answer (raw : Bytes) : Answer :=
  (hop.state.handleInner hop.store ⟨hop.now, sendRecv⟩ hop.policy
    (resolveAccount hop.server.domain hop.server.fallbackAccount hop.sni) raw).1

def dotApp : DotApp := ⟨hop.server.domain, hop.server.fallbackAccount⟩

def dot (data : Bytes) : CplResult Bytes :=
  (DotTransport.sendRecv ⟨.ok (), fun _ => .ok (), fun written =>
    (hop.dotApp.processNew (hop.handleQuery sendRecv) hop.state hop.sni written).1⟩ data).1

def dohReceiver : DohReceiver := ⟨hop.server⟩

def doh (base64 : Base64) (data : Bytes) : CplResult Bytes :=
  let request (query : Text) : Session Unit := ⟨.GET, some query, fun u => (.ok none, u)⟩
  DohTransport.sendRecv base64 (fun query =>
    (hop.dohReceiver.requestFilter base64 (hop.handleQuery sendRecv) hop.state hop.sni
      (request query) ()).1) data

end Hop

/-! ### Over several instances -/

section

variable [Text.UnicodeTables] (base64 : Base64) (outside : Transport → Bytes → CplResult Bytes)

/-- What a transport brings back when it leads to the first of these instances, and the transport
of each to the next. Nothing listens for UDP there. -/
def route : List Hop → Transport → Bytes → CplResult Bytes
  | hop :: hops, .DotTransport _ _, raw => hop.dot (route hops) raw
  | hop :: hops, .DohTransport _ _ _, raw => hop.doh (route hops) base64 raw
  | _, transport, raw => outside transport raw

end

def Transport.isDoh : Transport → Bool
  | .DohTransport _ _ _ => true
  | _ => false

/-- What comes back to the client for what the query came to: a message as it is, and a failure as
one unless a DoH transport has carried it. -/
structure Delivered (came : List Transport × CplResult Bytes) (got : CplResult Bytes) : Prop where
  message : ∀ resp, resp.length < 65536 → came.2 = .ok resp → got = .ok resp
  failure : ∀ e, came.2 = .error (.error e) →
    if came.1.any Transport.isDoh then got = .ok [] else ∃ e', got = .error (.error e')

theorem Delivered.refl (result : CplResult Bytes) : Delivered ([], result) result :=
  ⟨fun _ _ h => h, fun e h => ⟨e, h⟩⟩

/-- What is known of the `base64` crate: it reads what it writes, which is in its alphabet. -/
structure Base64.Carries (base64 : Base64) (m : Bytes) : Prop where
  decode : base64.decode (base64.encode m) = .ok m
  alphabet : ∀ c ∈ base64.encode m, isBase64Url c = true

/-! ### One connection -/

/-- One query on a DoT connection. -/
theorem DotApp.serve_one {σ : Type} (handleQuery : σ → Bytes → CplResult Bytes × σ) (s : σ)
    {raw : Bytes} (hraw : raw.length < 65536) : (serve handleQuery s (withLengthPrefix raw)).1 =
      match (handleQuery s raw).1 with
      | .ok resp => withLengthPrefix resp
      | .error _ => [] := by
  have hframes : withLengthPrefix raw = frames [⟨raw, hraw⟩] := (List.append_nil _).symm
  rw [hframes, serve_frames, List.map_singleton, responses]
  rcases handleQuery s raw with ⟨e | resp, s⟩
  · rfl
  · exact List.append_nil _

/-- An answer that fits in a frame comes back, and a connection that is closed instead is an
error. -/
theorem DotTransport.sendRecv_reply (reply : Bytes → Bytes) (data : Bytes) :
    (∀ resp, resp.length < 65536 → reply (withLengthPrefix data) = withLengthPrefix resp →
      (sendRecv ⟨.ok (), fun _ => .ok (), reply⟩ data).1 = .ok resp) ∧
    (reply (withLengthPrefix data) = [] →
      (sendRecv ⟨.ok (), fun _ => .ok (), reply⟩ data).1 = .error (.error "early eof")) := by
  unfold sendRecv
  refine ⟨fun resp hresp hreply => ?_, fun hreply => ?_⟩
  · have hread := readFrame_frame ⟨resp, hresp⟩ []
    rw [← withLengthPrefix_message, List.append_nil] at hread
    simp only [hreply, hread]
  · simp only [hreply]
    rfl

/-! ### One instance -/

section

variable [Text.UnicodeTables] {hop : Hop} {base64 : Base64}
  {sendRecv : Transport → Bytes → CplResult Bytes} {raw : Bytes}

theorem Hop.dot_ok (hraw : raw.length < 65536) {resp : Bytes} (hresp : resp.length < 65536)
    (h : (hop.answer sendRecv raw).result = .ok resp) : hop.dot sendRecv raw = .ok resp := by
  have hhandled : (hop.handleQuery sendRecv (hop.dotApp.accountFor hop.sni) hop.state raw).1 =
      .ok resp := h
  refine (DotTransport.sendRecv_reply _ raw).1 resp hresp ((DotApp.serve_one _ _ hraw).trans ?_)
  rw [hhandled]

theorem Hop.dot_error (hraw : raw.length < 65536) {e : Failure}
    (h : (hop.answer sendRecv raw).result = .error e) :
    hop.dot sendRecv raw = .error (.error "early eof") := by
  have hhandled : (hop.handleQuery sendRecv (hop.dotApp.accountFor hop.sni) hop.state raw).1 =
      .error e := h
  refine (DotTransport.sendRecv_reply _ raw).2 ((DotApp.serve_one _ _ hraw).trans ?_)
  rw [hhandled]

/-- One DoH request. -/
theorem Hop.doh_eq (hbase64 : base64.Carries raw) :
    hop.doh sendRecv base64 raw =
      (DohReceiver.reply (hop.answer sendRecv raw).result).map HttpReply.body := by
  have hquery : DohReceiver.queryOf base64
      (⟨.GET, some (DohTransport.query base64 raw), fun u : Unit => (.ok none, u)⟩ : Session Unit)
      () = .ok raw := by
    unfold DohReceiver.queryOf extractQuery
    dsimp only
    rw [extractParam_query hbase64.decode hbase64.alphabet]
  unfold Hop.doh DohTransport.sendRecv DohReceiver.requestFilter
  dsimp only
  rw [hquery]
  rfl

/-! ### All of them -/

/-- One more DoT connection. -/
theorem Delivered.dot (hraw : raw.length < 65536) {links : List Transport}
    {result : CplResult Bytes} (h : Delivered (links, result) (hop.answer sendRecv raw).result)
    (server : Text) (port : UInt16) :
    Delivered (.DotTransport server port :: links, result) (hop.dot sendRecv raw) where
  message resp hresp hcame := Hop.dot_ok hraw hresp (h.message resp hresp hcame)
  failure e hcame := by
    have hfailure := h.failure e hcame
    have hlinks : (Transport.DotTransport server port :: links).any Transport.isDoh =
        links.any Transport.isDoh := rfl
    rw [hlinks]
    split_ifs at hfailure ⊢
    · exact Hop.dot_ok hraw (by decide) hfailure
    · obtain ⟨e', hfailed⟩ := hfailure
      exact ⟨_, Hop.dot_error hraw hfailed⟩

/-- One more DoH request. -/
theorem Delivered.doh (hbase64 : base64.Carries raw) {links : List Transport}
    {result : CplResult Bytes} (h : Delivered (links, result) (hop.answer sendRecv raw).result)
    (host : Text) (port : UInt16) (addr : Option Text) :
    Delivered (.DohTransport host port addr :: links, result) (hop.doh sendRecv base64 raw) where
  message resp hresp hcame := by
    rw [Hop.doh_eq hbase64, h.message resp hresp hcame]
    rfl
  failure e hcame := by
    have hfailure := h.failure e hcame
    change hop.doh sendRecv base64 raw = .ok []
    rw [Hop.doh_eq hbase64]
    split_ifs at hfailure
    · rw [hfailure]
      rfl
    · obtain ⟨e', hfailed⟩ := hfailure
      rw [hfailed]
      rfl

end

section

attribute [local instance] Text.asciiTables

end

end Brdns
