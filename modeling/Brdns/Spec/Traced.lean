import Brdns.Lib.Traced
import Brdns.Spec.Packet

/-! The parser of `lib/buffer.rs` and `lib/protocol` again, with a record of what the bounds of
the buffer and of `usize` are about: octets and slices taken, positions added up, every move of the
cursor, and the heads of the two loops that have no counter. -/

namespace Brdns

open Lib BytePacketBuffer

inductive Event where
  /-- `self.buf[i]` -/
  | index (i : ℕ)
  /-- `&self.buf[start..start + len]` -/
  | slice (start len : ℕ)
  /-- an addition of positions -/
  | add (a b : ℕ)
  /-- `self.pos = pos`, by `read` or `seek` -/
  | moved (pos : ℕ)
  /-- `self.pos = pos`, by the `step` over an unknown record -/
  | skipped (pos : ℕ)
  /-- the head of the loop of `read_qname` -/
  | name (jumps pos : ℕ)
  /-- the head of the loop over the strings of a TXT record -/
  | txt (pos : ℕ)
  deriving DecidableEq

abbrev Traced (β : Type) := TracedM Event BufferError UInt8 β

namespace Traced

/-- `buf[i]`, which panics out of range. -/
def octet (buf : Bytes) (i : ℕ) : UInt8 := buf.getD i 0

def step (steps : ℕ) : Traced Unit := fun self =>
  ([.add self.pos steps, .skipped (self.pos + steps)],
    .ok () { self with pos := self.pos + steps })

def read : Traced UInt8 := fun self =>
  if self.pos ≥ self.buf.length then ([], .error .endOfBuffer self)
  else
    ([.index self.pos, .add self.pos 1, .moved (self.pos + 1)],
      .ok (octet self.buf self.pos) { self with pos := self.pos + 1 })

def readU16 : Traced UInt16 := do
  let hi ← read
  let lo ← read
  pure ((hi.toUInt16 <<< 8) ||| lo.toUInt16)

def readU32 : Traced UInt32 := do
  let b₀ ← read
  let b₁ ← read
  let b₂ ← read
  let b₃ ← read
  pure ((b₀.toUInt32 <<< 24) ||| (b₁.toUInt32 <<< 16) ||| (b₂.toUInt32 <<< 8) ||| b₃.toUInt32)

section Names

variable [Text.UnicodeTables]

def readQnameLoop (self : BytePacketBuffer) (pos : ℕ) (jumped : Bool) (delim outstr : Text)
    (jumpsPerformed : ℕ) : List Event × EStateM.Result BufferError BytePacketBuffer Text :=
  if _ : jumpsPerformed > maxJumps then
    ([.name jumpsPerformed pos], .error (.jumpLimit maxJumps) self)
  else if _ : pos ≥ self.buf.length then ([.name jumpsPerformed pos], .error .endOfBuffer self)
  else
    let len := octet self.buf pos
    if len &&& 0xC0 = 0xC0 then
      let moved : BytePacketBuffer := ⟨self.buf, if jumped then self.pos else pos + 2⟩
      let events := [.name jumpsPerformed pos, .index pos] ++
        if jumped then [] else [.add pos 2, .moved (pos + 2)]
      if pos + 1 ≥ self.buf.length then (events ++ [.add pos 1], .error .endOfBuffer moved)
      else
        let rest := readQnameLoop moved (pointerOffset len (octet self.buf (pos + 1))) true delim
          outstr (jumpsPerformed + 1)
        (events ++ [.add pos 1, .index (pos + 1)] ++ rest.1, rest.2)
    else if len = 0 then
      ([.name jumpsPerformed pos, .index pos, .add pos 1] ++
          if jumped then [] else [.moved (pos + 1)],
        .ok outstr ⟨self.buf, if jumped then self.pos else pos + 1⟩)
    else
      let events := [.name jumpsPerformed pos, .index pos, .add pos 1, .add (pos + 1) len.toNat]
      if pos + 1 + len.toNat > self.buf.length then (events, .error .endOfBuffer self)
      else
        let strBuffer := (self.buf.drop (pos + 1)).take len.toNat
        let rest := readQnameLoop self (pos + 1 + len.toNat) jumped ['.']
          (outstr ++ delim ++ Text.toLowercase (Text.fromUtf8Lossy strBuffer)) jumpsPerformed
        (events ++ [.slice (pos + 1) len.toNat, .add (pos + 1) len.toNat] ++ rest.1, rest.2)
  termination_by
    (maxJumps + 1 - jumpsPerformed) * (self.buf.length + 1) + (self.buf.length - pos)
  decreasing_by
    · exact jump_decreases ‹_›
    · omega

def readQname (outstr : Text) : Traced Text := fun self =>
  readQnameLoop self self.pos false [] outstr 0

end Names

/-! ### The header, questions and records -/

def readHeader : Traced DnsHeader := do
  let id ← readU16
  let flags ← readU16
  let questions ← readU16
  let answers ← readU16
  let authoritative ← readU16
  let resource ← readU16
  pure (DnsHeader.ofFlags id (flags >>> 8).toUInt8 (flags &&& 0xFF).toUInt8
    questions answers authoritative resource)

def readOctets : (n : ℕ) → Traced (List.Vector UInt8 n)
  | 0 => pure List.Vector.nil
  | n + 1 => do
    let octet ← read
    let octets ← readOctets n
    pure (octet ::ᵥ octets)

def readString (data : Text) : ℕ → Traced Text
  | 0 => pure data
  | n + 1 => do
    let octet ← read
    readString (data ++ [Char.ofNat octet.toNat]) n

theorem read_pos {c c' : BytePacketBuffer} {es : List Event} {v : UInt8}
    (h : read c = (es, .ok v c')) : c'.pos = c.pos + 1 := by
  unfold read at h
  split_ifs at h
  · cases h
  · cases h
    rfl

theorem readString_pos {data data' : Text} {n : ℕ} {c c' : BytePacketBuffer} {es : List Event}
    (h : readString data n c = (es, .ok data' c')) : c.pos ≤ c'.pos := by
  induction n generalizing data c es with
  | zero =>
    cases h
    exact le_rfl
  | succ n ih =>
    rw [readString] at h
    rcases hread : read c with ⟨es₁, ⟨v, c₁⟩ | ⟨e, c₁⟩⟩
    · rw [TracedM.bind_of_ok hread] at h
      have hnext := read_pos hread
      have hstring := ih (Prod.ext rfl (Prod.ext_iff.mp h).2)
      omega
    · rw [TracedM.bind_of_error hread] at h
      cases h

/-- The TXT loop as the source has it, without fuel: every round moves the cursor on. -/
def readTxt (stop : ℕ) (data : Text) (self : BytePacketBuffer) :
    List Event × EStateM.Result BufferError BytePacketBuffer Text :=
  if _ : self.pos < stop then
    match _ : read self with
    | (es, .error e c) => (.txt self.pos :: es, .error e c)
    | (es, .ok len c₁) =>
      match _ : readString data len.toNat c₁ with
      | (es', .error e c) => (.txt self.pos :: es ++ es', .error e c)
      | (es', .ok data c₂) =>
        let rest := readTxt stop data c₂
        (.txt self.pos :: es ++ es' ++ rest.1, rest.2)
  else ([.txt self.pos], .ok data self)
  termination_by stop - self.pos
  decreasing_by
    have hlen := read_pos ‹read self = _›
    have hstring := readString_pos ‹readString _ _ _ = _›
    omega

section Packets

variable [Text.UnicodeTables]

def readQuestion : Traced DnsQuestion := do
  let name ← readQname []
  let qtypeNum ← readU16
  let _class ← readU16
  pure ⟨name, QueryType.fromNum qtypeNum⟩

def readTyped (domain : Text) (qtypeNum : UInt16) (ttl : UInt32) (dataLen : UInt16) :
    QueryType → Traced DnsRecord
  | .A => do
    let rawAddr ← readU32
    pure (.A domain (DnsRecord.ipv4OfWord rawAddr) ttl)
  | .AAAA => do
    let octets ← readOctets 16
    pure (.AAAA domain octets ttl)
  | .CNAME => do
    let host ← readQname []
    pure (.CNAME domain host ttl)
  | .NS => do
    let host ← readQname []
    pure (.NS domain host ttl)
  | .MX => do
    let priority ← readU16
    let host ← readQname []
    pure (.MX domain priority host ttl)
  | .TXT => do
    let pos ← TracedM.position
    TracedM.record (.add pos dataLen.toNat)
    let data ← (readTxt (pos + dataLen.toNat) [] : Traced Text)
    pure (.TXT domain data ttl)
  | .UNKNOWN _ => do
    step dataLen.toNat
    pure (.UNKNOWN domain qtypeNum dataLen ttl)

def readRecord : Traced DnsRecord := do
  let domain ← readQname []
  let qtypeNum ← readU16
  let _class ← readU16
  let ttl ← readU32
  let dataLen ← readU16
  readTyped domain qtypeNum ttl dataLen (QueryType.fromNum qtypeNum)

def fromBuffer : Traced DnsPacket := do
  let header ← readHeader
  let questions ← TracedM.readMany readQuestion header.questions.toNat
  let answers ← TracedM.readMany readRecord header.answers.toNat
  let authorities ← TracedM.readMany readRecord header.authoritativeEntries.toNat
  let resources ← TracedM.readMany readRecord header.resourceEntries.toNat
  pure ⟨header, questions, answers, authorities, resources⟩

end Packets

end Traced

end Brdns
