import Brdns.Spec.Header
import Brdns.Spec.Record

/-! `lib/protocol/question.rs` and `lib/protocol/packet.rs`: questions and whole messages. -/

namespace Brdns

open Lib BytePacketBuffer

structure DnsQuestion where
  name : Text
  qtype : QueryType
  deriving DecidableEq

namespace DnsQuestion

def read [Text.UnicodeTables] : BufferM DnsQuestion := do
  let name ← readQname []
  let qtypeNum ← readU16
  let _class ← readU16
  pure ⟨name, QueryType.fromNum qtypeNum⟩

def write (self : DnsQuestion) : BufferM Unit := do
  writeQname self.name
  writeU16 self.qtype.toNum
  writeU16 1

end DnsQuestion

structure DnsPacket where
  header : DnsHeader
  questions : List DnsQuestion
  answers : List DnsRecord
  authorities : List DnsRecord
  resources : List DnsRecord
  deriving DecidableEq

namespace DnsPacket

def new : DnsPacket := ⟨DnsHeader.new, [], [], [], []⟩

def fromBuffer [Text.UnicodeTables] : BufferM DnsPacket := do
  let header ← DnsHeader.read
  let questions ← CursorM.readMany DnsQuestion.read header.questions.toNat
  let answers ← CursorM.readMany DnsRecord.read header.answers.toNat
  let authorities ← CursorM.readMany DnsRecord.read header.authoritativeEntries.toNat
  let resources ← CursorM.readMany DnsRecord.read header.resourceEntries.toNat
  pure ⟨header, questions, answers, authorities, resources⟩

/-- The header with its counts taken from the sections, each `as u16`. -/
def countedHeader (self : DnsPacket) : DnsHeader :=
  { self.header with
    questions := UInt16.ofNat self.questions.length
    answers := UInt16.ofNat self.answers.length
    authoritativeEntries := UInt16.ofNat self.authorities.length
    resourceEntries := UInt16.ofNat self.resources.length }

def writeRecords (recs : List DnsRecord) : BufferM Unit :=
  forM recs fun rec => do
    let _ ← rec.write
    pure ()

/-- Write the message; the packet comes back with its header counts updated. -/
def write (self : DnsPacket) : BufferM DnsPacket := do
  self.countedHeader.write
  forM self.questions DnsQuestion.write
  writeRecords self.answers
  writeRecords self.authorities
  writeRecords self.resources
  pure { self with header := self.countedHeader }

end DnsPacket

end Brdns
