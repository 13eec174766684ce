import Brdns.Lib.Codec
import Brdns.Lib.Text
import Mathlib.Tactic.Ring

/-! `lib/buffer.rs`: the packet buffer. Reading and writing share one cursor; a name is read
through compression pointers and written without them. -/

namespace Brdns

open Lib

abbrev Bytes := List UInt8

inductive BufferError where
  | endOfBuffer
  | jumpLimit (maxJumps : ℕ)
  | labelTooLong
  deriving DecidableEq

def BufferError.message : BufferError → String
  | .endOfBuffer => "End of buffer"
  | .jumpLimit maxJumps => s!"Limit of {maxJumps} jumps exceeded"
  | .labelTooLong => "Single label exceeds 63 characters"

abbrev BytePacketBuffer := Cursor UInt8

abbrev BufferM := CursorM BufferError UInt8

namespace BytePacketBuffer

def new : BytePacketBuffer := ⟨List.replicate 512 0, 0⟩

def fromBytes (data : Bytes) : BytePacketBuffer := Cursor.ofList data

/-- The written portion. -/
def asBytes (self : BytePacketBuffer) : Bytes := self.written

def step (steps : ℕ) : BufferM Unit := fun self => .ok () { self with pos := self.pos + steps }

def seek (pos : ℕ) : BufferM Unit := fun self => .ok () { self with pos := pos }

def read : BufferM UInt8 := fun self =>
  match self.buf[self.pos]? with
  | none => .error .endOfBuffer self
  | some res => .ok res { self with pos := self.pos + 1 }

def readU16 : BufferM UInt16 := do
  let hi ← read
  let lo ← read
  pure ((hi.toUInt16 <<< 8) ||| lo.toUInt16)

def readU32 : BufferM UInt32 := do
  let b₀ ← read
  let b₁ ← read
  let b₂ ← read
  let b₃ ← read
  pure ((b₀.toUInt32 <<< 24) ||| (b₁.toUInt32 <<< 16) ||| (b₂.toUInt32 <<< 8) ||| b₃.toUInt32)

/-! ### Reading names -/

def maxJumps : ℕ := 5

/-- Where a pointer of the two octets `len`, `b2` leads. -/
def pointerOffset (len b2 : UInt8) : ℕ :=
  (((len.toUInt16 ^^^ 0xC0) <<< 8) ||| b2.toUInt16).toNat

/-- A jump uses up one of the allowed jumps, a label moves on inside the buffer. -/
theorem jump_decreases {jumps off pos size : ℕ} (h : ¬ jumps > maxJumps) :
    (maxJumps + 1 - (jumps + 1)) * (size + 1) + (size - off) <
      (maxJumps + 1 - jumps) * (size + 1) + (size - pos) := by
  obtain ⟨k, hk⟩ : ∃ k, maxJumps + 1 - jumps = k + 1 := ⟨maxJumps - jumps, by omega⟩
  have hk' : maxJumps + 1 - (jumps + 1) = k := by omega
  rw [hk, hk', Nat.succ_mul]
  omega

section Names

variable [Text.UnicodeTables]

/-- The loop of `read_qname`. Only the cursor of `self` changes, and only before the first
jump; `pos` is the position inside the loop. -/
def readQnameLoop (self : BytePacketBuffer) (pos : ℕ) (jumped : Bool) (delim outstr : Text)
    (jumpsPerformed : ℕ) : EStateM.Result BufferError BytePacketBuffer Text :=
  if _ : jumpsPerformed > maxJumps then .error (.jumpLimit maxJumps) self
  else
    match _ : self.buf[pos]? with
    | none => .error .endOfBuffer self
    | some len =>
      if len &&& 0xC0 = 0xC0 then
        -- the cursor is set before the second octet is looked at
        let moved : BytePacketBuffer := ⟨self.buf, if jumped then self.pos else pos + 2⟩
        match self.buf[pos + 1]? with
        | none => .error .endOfBuffer moved
        | some b2 =>
          readQnameLoop moved (pointerOffset len b2) true delim outstr (jumpsPerformed + 1)
      else if len = 0 then
        .ok outstr ⟨self.buf, if jumped then self.pos else pos + 1⟩
      else if _ : pos + 1 + len.toNat > self.buf.length then .error .endOfBuffer self
      else
        let strBuffer := (self.buf.drop (pos + 1)).take len.toNat
        readQnameLoop self (pos + 1 + len.toNat) jumped ['.']
          (outstr ++ delim ++ Text.toLowercase (Text.fromUtf8Lossy strBuffer)) jumpsPerformed
  termination_by
    (maxJumps + 1 - jumpsPerformed) * (self.buf.length + 1) + (self.buf.length - pos)
  decreasing_by
    · exact jump_decreases ‹_›
    · have := (List.getElem?_eq_some_iff.mp ‹self.buf[pos]? = some len›).1
      omega

def readQname (outstr : Text) : BufferM Text := fun self =>
  readQnameLoop self self.pos false [] outstr 0

end Names

/-! ### Writing -/

def resize (buf : Bytes) (n : ℕ) : Bytes := buf.take n ++ List.replicate (n - buf.length) 0

def write (val : UInt8) : BufferM Unit := fun self =>
  let buf := if self.pos ≥ self.buf.length then resize self.buf (self.pos + 1) else self.buf
  .ok () ⟨buf.set self.pos val, self.pos + 1⟩

def writeU8 (val : UInt8) : BufferM Unit := write val

def writeU16 (val : UInt16) : BufferM Unit := do
  write (val >>> 8).toUInt8
  write (val &&& 0xFF).toUInt8

def writeU32 (val : UInt32) : BufferM Unit := do
  write ((val >>> 24) &&& 0xFF).toUInt8
  write ((val >>> 16) &&& 0xFF).toUInt8
  write ((val >>> 8) &&& 0xFF).toUInt8
  write (val &&& 0xFF).toUInt8

def writeLabel (label : Text) : BufferM Unit := do
  let len := Text.len label
  if len > 0x3f then throw .labelTooLong
  else
    writeU8 (UInt8.ofNat len)
    forM (Text.bytes label) writeU8

def writeQname (qname : Text) : BufferM Unit := do
  forM (Text.split '.' qname) writeLabel
  writeU8 0

/-- `self.buf[i] = val`, which leaves the cursor alone. -/
def patch (i : ℕ) (val : UInt8) : BufferM Unit := fun self =>
  .ok () ⟨self.buf.set i val, self.pos⟩

end BytePacketBuffer

end Brdns
