import Brdns.Spec.Buffer
import Mathlib.Data.Vector.Basic

/-! `lib/protocol/record.rs`: query types and resource records. -/

namespace Brdns

open Lib BytePacketBuffer

inductive QueryType where
  | UNKNOWN (num : UInt16)
  | A
  | AAAA
  | CNAME
  | MX
  | NS
  | TXT
  deriving DecidableEq

namespace QueryType

def toNum : QueryType → UInt16
  | .UNKNOWN x => x
  | .A => 1
  | .AAAA => 28
  | .CNAME => 5
  | .MX => 15
  | .NS => 2
  | .TXT => 16

def fromNum (num : UInt16) : QueryType :=
  if num = 1 then .A
  else if num = 28 then .AAAA
  else if num = 5 then .CNAME
  else if num = 15 then .MX
  else if num = 2 then .NS
  else if num = 16 then .TXT
  else .UNKNOWN num

end QueryType

/-- Addresses by their octets, in network order. -/
abbrev Ipv4Addr := List.Vector UInt8 4

abbrev Ipv6Addr := List.Vector UInt8 16

def Ipv4Addr.UNSPECIFIED : Ipv4Addr := List.Vector.replicate 4 0

def Ipv6Addr.UNSPECIFIED : Ipv6Addr := List.Vector.replicate 16 0

inductive DnsRecord where
  | UNKNOWN (domain : Text) (qtype : UInt16) (dataLen : UInt16) (ttl : UInt32)
  | A (domain : Text) (addr : Ipv4Addr) (ttl : UInt32)
  | AAAA (domain : Text) (addr : Ipv6Addr) (ttl : UInt32)
  | CNAME (domain : Text) (host : Text) (ttl : UInt32)
  | MX (domain : Text) (priority : UInt16) (host : Text) (ttl : UInt32)
  | NS (domain : Text) (host : Text) (ttl : UInt32)
  | TXT (domain : Text) (data : Text) (ttl : UInt32)
  deriving DecidableEq

namespace DnsRecord

def readOctets : (n : ℕ) → BufferM (List.Vector UInt8 n)
  | 0 => pure List.Vector.nil
  | n + 1 => do
    let octet ← read
    let octets ← readOctets n
    pure (octet ::ᵥ octets)

/-- `Ipv4Addr::new` on the four octets of the address word. -/
def ipv4OfWord (raw : UInt32) : Ipv4Addr :=
  ⟨[((raw >>> 24) &&& 0xFF).toUInt8, ((raw >>> 16) &&& 0xFF).toUInt8,
    ((raw >>> 8) &&& 0xFF).toUInt8, (raw &&& 0xFF).toUInt8], rfl⟩

/-- One character string of a TXT record, each octet read as a Latin-1 character. -/
def readString (data : Text) : ℕ → BufferM Text
  | 0 => pure data
  | n + 1 => do
    let octet ← read
    readString (data ++ [Char.ofNat octet.toNat]) n

/-- The loop of a TXT record up to position `stop`. Each round reads a length octet, so `fuel`
as large as the distance to `stop` is never used up. -/
def readTxt (stop : ℕ) (data : Text) : ℕ → BufferM Text
  | 0 => pure data
  | fuel + 1 => do
    let self ← get
    if self.pos < stop then
      let len ← read
      let data ← readString data len.toNat
      readTxt stop data fuel
    else pure data

def read [Text.UnicodeTables] : BufferM DnsRecord := do
  let domain ← readQname []
  let qtypeNum ← readU16
  let _class ← readU16
  let ttl ← readU32
  let dataLen ← readU16
  match QueryType.fromNum qtypeNum with
  | .A =>
    let rawAddr ← readU32
    pure (.A domain (ipv4OfWord rawAddr) ttl)
  | .AAAA =>
    let octets ← readOctets 16
    pure (.AAAA domain octets ttl)
  | .CNAME =>
    let host ← readQname []
    pure (.CNAME domain host ttl)
  | .NS =>
    let host ← readQname []
    pure (.NS domain host ttl)
  | .MX =>
    let priority ← readU16
    let host ← readQname []
    pure (.MX domain priority host ttl)
  | .TXT =>
    let self ← get
    let data ← readTxt (self.pos + dataLen.toNat) [] dataLen.toNat
    pure (.TXT domain data ttl)
  | .UNKNOWN _ =>
    step dataLen.toNat
    pure (.UNKNOWN domain qtypeNum dataLen ttl)

/-- The fields every written record begins with. -/
def writeFixed (domain : Text) (qtype : QueryType) (ttl : UInt32) : BufferM Unit := do
  writeQname domain
  writeU16 qtype.toNum
  writeU16 1
  writeU32 ttl

/-- Record types without a writer put nothing. The result is the number of octets written. -/
def write (self : DnsRecord) : BufferM ℕ := do
  let start ← get
  match self with
  | .A domain addr ttl =>
    writeFixed domain .A ttl
    writeU16 4
    forM addr.toList writeU8
  | .AAAA domain addr ttl =>
    writeFixed domain .AAAA ttl
    writeU16 16
    forM addr.toList writeU8
  | .CNAME domain host ttl =>
    writeFixed domain .CNAME ttl
    let before ← get
    writeU16 0
    writeQname host
    let after ← get
    let len := UInt16.ofNat (after.pos - before.pos - 2)
    -- the placeholder is overwritten with the length of the host just written
    patch before.pos (len >>> 8).toUInt8
    patch (before.pos + 1) (len &&& 0xFF).toUInt8
  | _ => pure ()
  let done ← get
  pure (done.pos - start.pos)

end DnsRecord

end Brdns
