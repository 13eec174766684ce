import Brdns.Proofs.Blocked
import Brdns.Proofs.Messages

/-! Which queries can be answered with a block. The writer limits labels to 63 bytes and the
reader does not, so the answer fails for a question whose name does not fit the writer. -/

namespace Brdns

open Lib DnsName CursorM BytePacketBuffer Layout

/-! ### What the writer refuses -/

theorem DnsQuestion.refuses_write {q : DnsQuestion} (h : ¬ WritableName q.name) :
    Refuses q.write := (refuses_writeQname h).bind_right

theorem DnsPacket.refuses_write {packet : DnsPacket}
    (h : ∃ q ∈ packet.questions, ¬ WritableName q.name) : Refuses packet.write := by
  obtain ⟨q, hq, hname⟩ := h
  have hquestion (q : DnsQuestion) : Emits q.write q.wire ∨ Refuses q.write := by
    by_cases hw : WritableName q.name
    · exact .inl (DnsQuestion.emits_write hw)
    · exact .inr (DnsQuestion.refuses_write hw)
  exact .bind_left (DnsHeader.emits_write _) fun _ => (Refuses.forM (fun q _ => hquestion q)
    ⟨q, hq, DnsQuestion.refuses_write hname⟩).bind_right

namespace Blocking

/-- The answers are under the first question's name. -/
theorem modeAnswers_writable {policy : BlockPolicy} {first : Option DnsQuestion}
    (h : ∀ q ∈ first, WritableName q.name) :
    ∀ r ∈ modeAnswers policy first, ∀ name ∈ r.writtenNames, WritableName name := by
  unfold modeAnswers
  split <;> simp_all [DnsRecord.writtenNames]

theorem blockPacket_writable {packet : DnsPacket} (policy : BlockPolicy)
    (h : ∀ q ∈ packet.questions, WritableName q.name) : (blockPacket packet policy).Writable := by
  rw [blockPacket_eq]
  exact ⟨h, modeAnswers_writable fun q hq => h q (List.mem_of_mem_head? hq), by simp, by simp⟩

variable [Text.UnicodeTables]

theorem synthesize_eq (policy : BlockPolicy) {raw : Bytes} {packet : DnsPacket}
    {c : BytePacketBuffer} (hparse : DnsPacket.fromBuffer (fromBytes raw) = .ok packet c) :
    synthesize raw policy = (runBuffer (blockPacket packet policy).write BytePacketBuffer.new).map
      fun written => asBytes written.2 := by
  rw [synthesize, runBuffer_ok hparse]
  rfl

/-- The answer is the blocked packet's encoding. -/
theorem synthesize_wire (policy : BlockPolicy) {raw : Bytes} {packet : DnsPacket}
    {c : BytePacketBuffer} (hparse : DnsPacket.fromBuffer (fromBytes raw) = .ok packet c)
    (h : ∀ q ∈ packet.questions, WritableName q.name) :
    synthesize raw policy = .ok (blockPacket packet policy).wire := by
  obtain ⟨r, c', hwrite, hout⟩ :=
    (DnsPacket.emits_write (blockPacket_writable policy h)).of_start (List.replicate 512 0)
  rw [synthesize_eq policy hparse, BytePacketBuffer.new, runBuffer_ok hwrite, ← hout]
  rfl

theorem synthesize_ok_iff_writable (policy : BlockPolicy) {raw : Bytes} {packet : DnsPacket}
    {c : BytePacketBuffer} (hparse : DnsPacket.fromBuffer (fromBytes raw) = .ok packet c) :
    (∃ out, synthesize raw policy = .ok out) ↔ ∀ q ∈ packet.questions, WritableName q.name := by
  constructor
  · rintro ⟨out, hout⟩
    by_contra hbad
    simp only [not_forall] at hbad
    obtain ⟨q, hq, hname⟩ := hbad
    have hrefuses : Refuses (blockPacket packet policy).write := by
      rw [blockPacket_eq]
      exact DnsPacket.refuses_write ⟨q, hq, hname⟩
    obtain ⟨e, c', herr⟩ := hrefuses BytePacketBuffer.new (Nat.zero_le _)
    rw [synthesize_eq policy hparse, runBuffer, herr] at hout
    cases hout
  · exact fun h => ⟨_, synthesize_wire policy hparse h⟩

end Blocking

/-! ### The condition on the octets -/

namespace Layout

/-- Every label of the name at `pos`, as the text it is read as and cut at its dots, has at most
63 bytes. -/
def ShortLabels [Text.UnicodeTables] (msg : Bytes) (pos : ℕ) : Prop :=
  ∀ jumps labels stop, Unfolds msg pos jumps labels stop →
    ∀ l ∈ labels, ∀ piece ∈ Text.split '.' (labelText l), Text.len piece ≤ 63

end Layout

section

variable [Text.UnicodeTables]

theorem NameAt.writable_iff {msg : Bytes} {name : Text} {pos : ℕ} (h : NameAt msg name pos) :
    WritableName name ↔ ShortLabels msg pos := by
  obtain ⟨jumps, labels, stop, hname, -, rfl⟩ := h
  rw [WritableName, Text.forall_split_join (Nat.zero_le _), List.forall_mem_map]
  constructor
  · intro hall jumps' labels' stop' hname'
    obtain ⟨-, rfl, -⟩ := hname.unique hname'
    exact hall
  · exact fun hall => hall jumps labels stop hname

/-- A query that parses is answered with a block exactly when the names of its questions fit the
writer. -/
theorem Blocking.synthesize_ok_iff (policy : BlockPolicy) {raw : Bytes} {packet : DnsPacket}
    {c : BytePacketBuffer} (hparse : DnsPacket.fromBuffer (fromBytes raw) = .ok packet c) :
    (∃ out, synthesize raw policy = .ok out) ↔
      ∀ i < questionCount raw, ShortLabels raw (questionStart raw i) := by
  rw [synthesize_ok_iff_writable policy hparse]
  have hread : DnsPacket.ReadAt raw raw packet c := DnsPacket.read_at (fun _ _ _ hb => hb) hparse
  have hname (i : ℕ) (hi : i < packet.questions.length) :
      NameAt raw packet.questions[i].name (questionStart raw i) :=
    (DnsQuestion.read_at (hread.questions i hi)).2.2.2
  rw [← hread.questions_length]
  constructor
  · intro h i hi
    exact (hname i hi).writable_iff.mp (h _ (List.getElem_mem hi))
  · intro h q hq
    obtain ⟨i, hi, rfl⟩ := List.getElem_of_mem hq
    exact (hname i hi).writable_iff.mpr (h i hi)

end

section

attribute [local instance] Text.asciiTables

theorem Blocking.synthesize_ok_iff_address :
    (∃ out, synthesize addressQuery customPolicy = .ok out) ↔
      ∀ i < questionCount addressQuery, ShortLabels addressQuery (questionStart addressQuery i) := by
  have hparse : DnsPacket.fromBuffer (fromBytes addressQuery) =
      .ok addressPacket ⟨addressQuery, 38⟩ := by decide +kernel
  exact Blocking.synthesize_ok_iff customPolicy hparse

/-- A question for one label of 22 octets that are no UTF-8. -/
def binaryQuery : Bytes :=
  [0, 7, 1, 0, 0, 1, 0, 0, 0, 0, 0, 0, 22] ++ List.replicate 22 255 ++ [0, 0, 1, 0, 1]

def binaryPacket : DnsPacket :=
  ⟨DnsHeader.ofFlags 7 1 0 1 0 0 0, [⟨List.replicate 22 Text.replacement, .A⟩], [], [], []⟩

/-- Each octet becomes a character of three bytes, and the label is too long to be written. -/
theorem Blocking.binary_label_unanswered :
    DnsPacket.fromBuffer (fromBytes binaryQuery) = .ok binaryPacket ⟨binaryQuery, 40⟩ ∧
      ¬ ∃ out, synthesize binaryQuery customPolicy = .ok out := by
  have hparse : DnsPacket.fromBuffer (fromBytes binaryQuery) =
      .ok binaryPacket ⟨binaryQuery, 40⟩ := by decide +kernel
  refine ⟨hparse, ?_⟩
  rw [Blocking.synthesize_ok_iff_writable customPolicy hparse]
  decide +kernel

end

end Brdns
