import Brdns.Lib.Word
import Mathlib.Data.List.Basic
import Mathlib.Tactic.Common

/-! Messages on a stream of octets, each after its length in two octets, high octet first. A
reader of the stream gets the messages back, whatever follows them. -/

namespace Lib.Framing

open Word

/-- A message whose length fits in sixteen bits. -/
abbrev Message := {m : List UInt8 // m.length < 65536}

def prefixed (len : UInt16) (m : List UInt8) : List UInt8 := octets16 len ++ m

def frame (m : Message) : List UInt8 := prefixed (UInt16.ofNat m.1.length) m.1

/-- The frames of some messages, one after the other. -/
def frames (ms : List Message) : List UInt8 := ms.flatMap frame

/-! ### Reading -/

/-- The first `n` octets and what follows them, if there are that many. -/
def readExact (n : ℕ) (stream : List UInt8) : Option (List UInt8 × List UInt8) :=
  if n ≤ stream.length then some (stream.take n, stream.drop n) else none

/-- The first message of a stream and what follows it. -/
def readFrame : List UInt8 → Option (List UInt8 × List UInt8)
  | hi :: lo :: rest => readExact ((hi.toUInt16 <<< 8) ||| lo.toUInt16).toNat rest
  | _ => none

theorem readExact_length {n : ℕ} {stream m rest : List UInt8}
    (h : readExact n stream = some (m, rest)) :
    m.length = n ∧ rest.length ≤ stream.length := by
  unfold readExact at h
  split_ifs at h with hn
  cases h
  exact ⟨List.length_take_of_le hn, by simp⟩

theorem readFrame_length {stream m rest : List UInt8} (h : readFrame stream = some (m, rest)) :
    rest.length < stream.length := by
  unfold readFrame at h
  split at h
  · have := (readExact_length h).2
    simp only [List.length_cons]
    omega
  · cases h

/-- The messages of a stream in order, and what is left when no whole message is. -/
def readFrames (stream : List UInt8) : List (List UInt8) × List UInt8 :=
  match _ : readFrame stream with
  | none => ([], stream)
  | some (m, rest) =>
    let (ms, left) := readFrames rest
    (m :: ms, left)
  termination_by stream.length
  decreasing_by exact readFrame_length ‹_›

theorem readExact_append (m rest : List UInt8) :
    readExact m.length (m ++ rest) = some (m, rest) := by
  unfold readExact
  rw [if_pos (by simp), List.take_left, List.drop_left]

/-- A reader takes as many octets as the prefix says, not as many as were meant. -/
theorem readFrame_prefixed (len : UInt16) (m rest : List UInt8) :
    readFrame (prefixed len m ++ rest) = readExact len.toNat (m ++ rest) := by
  have h := join_octets16 len
  unfold prefixed octets16
  simp only [List.cons_append, List.nil_append, readFrame, h]

theorem readFrame_frame (m : Message) (rest : List UInt8) :
    readFrame (frame m ++ rest) = some (m.1, rest) := by
  have hlen : (UInt16.ofNat m.1.length).toNat = m.1.length := by
    rw [UInt16.toNat_ofNat']
    exact Nat.mod_eq_of_lt m.2
  rw [frame, readFrame_prefixed, hlen, readExact_append]

theorem readFrames_of_some {stream m rest : List UInt8} (h : readFrame stream = some (m, rest)) :
    readFrames stream = (m :: (readFrames rest).1, (readFrames rest).2) := by
  rw [readFrames]
  split
  · next hnone => rw [h] at hnone; cases hnone
  · next hsome => rw [h] at hsome; cases hsome; rfl

theorem readFrames_of_none {stream : List UInt8} (h : readFrame stream = none) :
    readFrames stream = ([], stream) := by
  rw [readFrames]
  split
  · rfl
  · next hsome => rw [h] at hsome; cases hsome

theorem readFrames_frames (ms : List Message) (rest : List UInt8) :
    readFrames (frames ms ++ rest) =
      (ms.map Subtype.val ++ (readFrames rest).1, (readFrames rest).2) := by
  induction ms with
  | nil => rfl
  | cons m ms ih =>
    rw [frames, List.flatMap_cons, List.append_assoc, readFrames_of_some (readFrame_frame m _)]
    rw [← frames, ih]
    rfl

/-- What a reader takes for a message always fits. -/
theorem length_of_mem_readFrames {stream m : List UInt8} (h : m ∈ (readFrames stream).1) :
    m.length < 65536 := by
  induction hn : stream.length using Nat.strong_induction_on generalizing stream with
  | _ n ih =>
    cases hread : readFrame stream with
    | none =>
      rw [readFrames_of_none hread] at h
      cases h
    | some found =>
      obtain ⟨m', rest⟩ := found
      rw [readFrames_of_some hread] at h
      rcases List.mem_cons.mp h with rfl | h
      · unfold readFrame at hread
        split at hread
        · rw [(readExact_length hread).1]
          exact UInt16.toNat_lt _
        · cases hread
      · exact ih _ (hn ▸ readFrame_length hread) h rfl

/-- A message too long for its prefix is never read back as one message and nothing more. -/
theorem readFrames_prefixed_ne_nil {len : UInt16} {m : List UInt8} (h : len.toNat ≤ m.length)
    (rest : List UInt8) : (readFrames (prefixed len m ++ rest)).1 ≠ [] := by
  have hread : readFrame (prefixed len m ++ rest) =
      some ((m ++ rest).take len.toNat, (m ++ rest).drop len.toNat) := by
    rw [readFrame_prefixed, readExact, if_pos (by rw [List.length_append]; omega)]
  rw [readFrames_of_some hread]
  exact List.cons_ne_nil _ _

end Lib.Framing
