import Brdns.Spec.Buffer

/-! `lib/protocol/header.rs`: the twelve-octet message header. -/

namespace Brdns

open Lib BytePacketBuffer

/-- `(octet & (1 << i)) > 0`. -/
def isSet (octet i : UInt8) : Bool := octet &&& ((1 : UInt8) <<< i) > 0

inductive ResultCode where
  | NOERROR
  | FORMERR
  | SERVFAIL
  | NXDOMAIN
  | NOTIMP
  | REFUSED
  deriving DecidableEq

namespace ResultCode

/-- The discriminant, `rescode as u8`. -/
def toU8 : ResultCode → UInt8
  | .NOERROR => 0
  | .FORMERR => 1
  | .SERVFAIL => 2
  | .NXDOMAIN => 3
  | .NOTIMP => 4
  | .REFUSED => 5

def fromNum (num : UInt8) : ResultCode :=
  if num = 1 then .FORMERR
  else if num = 2 then .SERVFAIL
  else if num = 3 then .NXDOMAIN
  else if num = 4 then .NOTIMP
  else if num = 5 then .REFUSED
  else .NOERROR

end ResultCode

structure DnsHeader where
  id : UInt16
  recursionDesired : Bool
  truncatedMessage : Bool
  authoritativeAnswer : Bool
  opcode : UInt8
  response : Bool
  rescode : ResultCode
  checkingDisabled : Bool
  authedData : Bool
  z : Bool
  recursionAvailable : Bool
  questions : UInt16
  answers : UInt16
  authoritativeEntries : UInt16
  resourceEntries : UInt16
  deriving DecidableEq

namespace DnsHeader

def new : DnsHeader where
  id := 0
  recursionDesired := false
  truncatedMessage := false
  authoritativeAnswer := false
  opcode := 0
  response := false
  rescode := .NOERROR
  checkingDisabled := false
  authedData := false
  z := false
  recursionAvailable := false
  questions := 0
  answers := 0
  authoritativeEntries := 0
  resourceEntries := 0

/-- The header of the two flag octets `a`, `b` and the five 16-bit fields. -/
def ofFlags (id : UInt16) (a b : UInt8) (questions answers authoritative resource : UInt16) :
    DnsHeader where
  id := id
  recursionDesired := isSet a 0
  truncatedMessage := isSet a 1
  authoritativeAnswer := isSet a 2
  opcode := (a >>> 3) &&& 0x0F
  response := isSet a 7
  rescode := ResultCode.fromNum (b &&& 0x0F)
  checkingDisabled := isSet b 4
  authedData := isSet b 5
  z := isSet b 6
  recursionAvailable := isSet b 7
  questions := questions
  answers := answers
  authoritativeEntries := authoritative
  resourceEntries := resource

def read : BufferM DnsHeader := do
  let id ← readU16
  let flags ← readU16
  let questions ← readU16
  let answers ← readU16
  let authoritative ← readU16
  let resource ← readU16
  pure (ofFlags id (flags >>> 8).toUInt8 (flags &&& 0xFF).toUInt8
    questions answers authoritative resource)

/-- The first flag octet. -/
def flagsA (self : DnsHeader) : UInt8 :=
  self.recursionDesired.toUInt8 ||| (self.truncatedMessage.toUInt8 <<< 1) |||
    (self.authoritativeAnswer.toUInt8 <<< 2) ||| (self.opcode <<< 3) |||
    (self.response.toUInt8 <<< 7)

/-- The second flag octet. -/
def flagsB (self : DnsHeader) : UInt8 :=
  self.rescode.toU8 ||| (self.checkingDisabled.toUInt8 <<< 4) |||
    (self.authedData.toUInt8 <<< 5) ||| (self.z.toUInt8 <<< 6) |||
    (self.recursionAvailable.toUInt8 <<< 7)

def write (self : DnsHeader) : BufferM Unit := do
  writeU16 self.id
  writeU8 self.flagsA
  writeU8 self.flagsB
  writeU16 self.questions
  writeU16 self.answers
  writeU16 self.authoritativeEntries
  writeU16 self.resourceEntries

end DnsHeader

end Brdns
