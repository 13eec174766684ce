import Brdns.Proofs.Messages

/-! How large decoded names can get. No limit on labels or whole names is enforced; what bounds a
name is the limit on pointers, since between two pointers it lies inside the message. -/

namespace Brdns

open Lib DnsName CursorM BytePacketBuffer Layout

section

variable [Text.UnicodeTables]

/-- Every decoded name was read where the layout has one, over at most five pointers, from
non-empty labels inside the message, and takes at most six times the message's length. -/
theorem decoded_names_bounded {raw : Bytes} {packet : DnsPacket} {c : BytePacketBuffer}
    (h : DnsPacket.fromBuffer (fromBytes raw) = .ok packet c) :
    ∀ name ∈ packet.names, ∃ pos, NameStart raw pos ∧ ∃ jumps labels stop,
      Unfolds raw pos jumps labels stop ∧ jumps ≤ 5 ∧
        name = Text.join '.' (labels.map labelText) ∧ (∀ l ∈ labels, l ≠ []) ∧
        (wire labels).length ≤ (jumps + 1) * raw.length ∧
        (wire labels).length ≤ 6 * raw.length := by
  intro name hname
  have hread : DnsPacket.ReadAt raw raw packet c := DnsPacket.read_at (fun _ _ _ hb => hb) h
  obtain ⟨pos, hpos, jumps, labels, stop, hat, hle, rfl⟩ :=
    (hread.names fun _ _ _ hb => hb).1 name hname
  have hnonempty : ∀ l ∈ labels, l ≠ [] := by
    intro l hl
    obtain ⟨head, j, len, -, -, -, hlen, -, hin, rfl⟩ := hat.label_visited l hl
    rw [← List.length_pos_iff, length_label hin]
    exact hlen
  have hwire : (wire labels).length ≤ (jumps + 1) * raw.length :=
    (Nat.le_add_left _ pos).trans hat.wire_length_le
  exact ⟨pos, hpos, jumps, labels, stop, hat, hle, rfl, hnonempty, hwire,
    hwire.trans (Nat.mul_le_mul_right _ (Nat.succ_le_succ hle))⟩

end

section

attribute [local instance] Text.asciiTables

/-- A question for `a`, and one for it again over a pointer. -/
def twiceQuery : Bytes :=
  [0, 7, 1, 0, 0, 2, 0, 0, 0, 0, 0, 0, 1, 97, 0, 0, 1, 0, 1, 192, 12, 0, 28, 0, 1]

def twicePacket : DnsPacket :=
  ⟨DnsHeader.ofFlags 7 1 0 2 0 0 0, [⟨['a'], .A⟩, ⟨['a'], .AAAA⟩], [], [], []⟩

theorem decoded_names_bounded_twice :
    DnsPacket.fromBuffer (fromBytes twiceQuery) = .ok twicePacket ⟨twiceQuery, 25⟩ ∧
      ∀ name ∈ twicePacket.names, ∃ pos, NameStart twiceQuery pos ∧ ∃ jumps labels stop,
        Unfolds twiceQuery pos jumps labels stop ∧ jumps ≤ 5 ∧
          name = Text.join '.' (labels.map labelText) ∧ (∀ l ∈ labels, l ≠ []) ∧
          (wire labels).length ≤ (jumps + 1) * twiceQuery.length ∧
          (wire labels).length ≤ 6 * twiceQuery.length := by
  have hparse : DnsPacket.fromBuffer (fromBytes twiceQuery) =
      .ok twicePacket ⟨twiceQuery, 25⟩ := by decide +kernel
  exact ⟨hparse, decoded_names_bounded hparse⟩

def longLabels : List Bytes := List.replicate 5 (List.replicate 63 97)

def longNameQuery : Bytes :=
  [0, 7, 1, 0, 0, 1, 0, 0, 0, 0, 0, 0] ++ wire longLabels ++ [0, 1, 0, 1]

def longNamePacket : DnsPacket :=
  ⟨DnsHeader.ofFlags 7 1 0 1 0 0 0,
    [⟨Text.join '.' (List.replicate 5 (List.replicate 63 'a')), .A⟩], [], [], []⟩

theorem long_name_accepted :
    DnsPacket.fromBuffer (fromBytes longNameQuery) = .ok longNamePacket ⟨longNameQuery, 337⟩ ∧
      ∃ stop, Unfolds longNameQuery 12 0 longLabels stop ∧ (∀ l ∈ longLabels, l.length ≤ 63) ∧
        255 < (wire longLabels).length := by
  have hlabels : ∀ l ∈ longLabels, l.length = 63 := by simp [longLabels]
  refine ⟨by decide +kernel, _, unfolds_wire longLabels (fun l hl => ?_)
    [0, 7, 1, 0, 0, 1, 0, 0, 0, 0, 0, 0] [0, 1, 0, 1], fun l hl => (hlabels l hl).le,
    by decide +kernel⟩
  rw [hlabels l hl]
  decide

end

end Brdns
