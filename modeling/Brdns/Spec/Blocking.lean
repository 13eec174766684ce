import Brdns.Spec.Model
import Brdns.Spec.Packet

/-! `lib/blocking.rs`: the answer to a query that is not forwarded. -/

namespace Brdns

open Lib BytePacketBuffer

inductive BlockResponse where
  | Nxdomain
  | Refused
  | Null
  | Custom
  deriving DecidableEq

structure BlockPolicy where
  response : BlockResponse
  ipv4 : Ipv4Addr
  ipv6 : Ipv6Addr
  deriving DecidableEq

/-- Run a buffer function and turn its error into a boxed one. -/
def runBuffer {α : Type} (p : BufferM α) (buf : BytePacketBuffer) :
    CplResult (α × BytePacketBuffer) :=
  match p buf with
  | .ok v buf => .ok (v, buf)
  | .error e _ => .error (.error e.message)

namespace Blocking

/-- The name of the first question, empty without one. -/
def firstName (packet : DnsPacket) : Text := (packet.questions.head?.map DnsQuestion.name).getD []

/-- The answer section for a block with an address, by the type of the first question. -/
def addressAnswers (policy : BlockPolicy) (qname : Text) : Option QueryType → List DnsRecord
  | some .A =>
    [.A qname (if policy.response = .Custom then policy.ipv4 else Ipv4Addr.UNSPECIFIED) 60]
  | some .AAAA =>
    [.AAAA qname (if policy.response = .Custom then policy.ipv6 else Ipv6Addr.UNSPECIFIED) 60]
  | _ => []

/-- The packet `synthesize` writes, from the parsed query. -/
def blockPacket (packet : DnsPacket) (policy : BlockPolicy) : DnsPacket :=
  let qname := firstName packet
  let qtype := packet.questions.head?.map DnsQuestion.qtype
  let header := { packet.header with response := true }
  match policy.response with
  | .Nxdomain => ⟨{ header with rescode := .NXDOMAIN }, packet.questions, [], [], []⟩
  | .Refused => ⟨{ header with rescode := .REFUSED }, packet.questions, [], [], []⟩
  | .Null | .Custom =>
    ⟨{ header with rescode := .NOERROR }, packet.questions, addressAnswers policy qname qtype,
      [], []⟩

def synthesize [Text.UnicodeTables] (rawQuery : Bytes) (policy : BlockPolicy) :
    CplResult Bytes := do
  let (packet, _) ← runBuffer DnsPacket.fromBuffer (fromBytes rawQuery)
  let (_, out) ← runBuffer (blockPacket packet policy).write BytePacketBuffer.new
  pure (asBytes out)

end Blocking

end Brdns
