import Brdns.Proofs.Answerable

/-! The question section of an answer. The question goes through its decoded form, which keeps the
type but neither the letter case of the name nor the class. -/

namespace Brdns

open Lib DnsName CursorM Word BytePacketBuffer Layout

namespace Layout

def questionSection (msg : Bytes) : Bytes :=
  (msg.drop 12).take (questionStart msg (questionCount msg) - 12)

end Layout

structure PlainLabels (labels : List Bytes) : Prop where
  nonempty : labels ≠ []
  size : ∀ l ∈ labels, 1 ≤ l.length ∧ l.length ≤ 63
  ascii : ∀ l ∈ labels, ∀ b ∈ l, b.toNat < 128
  no_dot : ∀ l ∈ labels, ∀ b ∈ l, b ≠ 46

def questionWire (labels : List Bytes) (qtype qclass : UInt16) : Bytes :=
  wire labels ++ (octets16 qtype ++ octets16 qclass)

/-- A message whose questions are one question with an uncompressed name. -/
theorem questionSection_of_wire {hdr rest : Bytes} {labels : List Bytes} {qtype qclass : UInt16}
    (hhdr : hdr.length = 12) (hsize : ∀ l ∈ labels, 1 ≤ l.length ∧ l.length ≤ 63)
    (hcount : questionCount (hdr ++ questionWire labels qtype qclass ++ rest) = 1) :
    questionSection (hdr ++ questionWire labels qtype qclass ++ rest) =
      questionWire labels qtype qclass := by
  have hname := (expands_wire labels hsize hdr (octets16 qtype ++ octets16 qclass ++ rest)).unfolds
  have hmsg : hdr ++ wire labels ++ (octets16 qtype ++ octets16 qclass ++ rest) =
      hdr ++ questionWire labels qtype qclass ++ rest := by
    simp [questionWire]
  rw [hmsg, hhdr] at hname
  have hend : questionStart (hdr ++ questionWire labels qtype qclass ++ rest) 1 =
      12 + (questionWire labels qtype qclass).length := by
    change nameEnd _ 12 + 4 = _
    rw [hname.nameEnd_eq]
    simp [questionWire, octets16]
    omega
  rw [questionSection, hcount, hend, List.append_assoc, ← hhdr, List.drop_left,
    Nat.add_sub_cancel_left, List.take_left]

private theorem foldCase_table : ∀ n : Fin 128, (foldCase (UInt8.ofNat n.val)).toNat < 128 ∧
    (foldCase (UInt8.ofNat n.val) = 46 → n.val = 46) := by decide +kernel

theorem foldCase_ascii {b : UInt8} (h : b.toNat < 128) : (foldCase b).toNat < 128 := by
  simpa using (foldCase_table ⟨b.toNat, h⟩).1

theorem foldCase_ne_dot {b : UInt8} (h : b.toNat < 128) (hdot : b ≠ 46) : foldCase b ≠ 46 := by
  intro heq
  have htable := (foldCase_table ⟨b.toNat, h⟩).2
  simp only [UInt8.ofNat_toNat] at htable
  exact hdot (UInt8.toNat_inj.mp (htable heq))

section

variable [Text.UnicodeTables]

/-- An ASCII label is written back with its capitals made small. -/
theorem bytes_labelText {l : Bytes} (h : ∀ b ∈ l, b.toNat < 128) :
    Text.bytes (labelText l) = l.map foldCase := by
  rw [labelText_of_ascii h]
  apply Text.bytes_of_octets
  intro b hb
  obtain ⟨b', hb', rfl⟩ := List.mem_map.mp hb
  exact foldCase_ascii (h b' hb')

theorem dot_not_mem_labelText {l : Bytes} (h : ∀ b ∈ l, b.toNat < 128)
    (hdot : ∀ b ∈ l, b ≠ 46) : '.' ∉ labelText l := by
  rw [labelText_of_ascii h, List.map_map]
  intro hmem
  obtain ⟨b, hb, heq⟩ := List.mem_map.mp hmem
  have hval := congrArg Char.toNat heq
  rw [Function.comp_apply, Text.toNat_ascii _ (foldCase_ascii (h b hb))] at hval
  exact foldCase_ne_dot (h b hb) (hdot b hb) (UInt8.toNat_inj.mp hval)

theorem split_plain {labels : List Bytes} (h : PlainLabels labels) :
    Text.split '.' (Text.join '.' (labels.map labelText)) = labels.map labelText := by
  apply Text.split_join
  · simpa using h.nonempty
  · intro p hp
    obtain ⟨l, hl, rfl⟩ := List.mem_map.mp hp
    exact dot_not_mem_labelText (h.ascii l hl) (h.no_dot l hl)

/-- The name read from plain labels is written as the labels with capitals made small. -/
theorem nameWire_of_plain {labels : List Bytes} (h : PlainLabels labels) :
    nameWire (Text.join '.' (labels.map labelText)) = wire (labels.map (List.map foldCase)) := by
  rw [nameWire, split_plain h, List.map_map]
  exact congrArg wire (List.map_congr_left fun l hl => bytes_labelText (h.ascii l hl))

theorem writable_of_plain {labels : List Bytes} (h : PlainLabels labels) :
    WritableName (Text.join '.' (labels.map labelText)) := by
  rw [WritableName, split_plain h, List.forall_mem_map]
  intro l hl
  rw [Text.len, bytes_labelText (h.ascii l hl), List.length_map]
  exact (h.size l hl).2

/-- A question with an uncompressed name is read as its labels and its type. -/
theorem decodes_questionWire {labels : List Bytes}
    (hsize : ∀ l ∈ labels, 1 ≤ l.length ∧ l.length ≤ 63) (qtype qclass : UInt16) :
    Decodes DnsQuestion.read (questionWire labels qtype qclass)
      ⟨Text.join '.' (labels.map labelText), QueryType.fromNum qtype⟩ := by
  have hname : Decodes (readQname []) (wire labels) (Text.join '.' (labels.map labelText)) := by
    intro before after
    exact readQname_ok_iff.mpr ⟨0, labels, _, (expands_wire labels hsize before after).unfolds,
      Nat.zero_le _, rfl, rfl⟩
  exact hname.bind ((decodes_readU16 qtype).bind (decodes_readU16 qclass).bind_pure)

/-- The question of a query, by its question section. -/
theorem questions_of_section {raw : Bytes} {packet : DnsPacket} {c : BytePacketBuffer}
    {labels : List Bytes} {qtype qclass : UInt16}
    (hparse : DnsPacket.fromBuffer (fromBytes raw) = .ok packet c)
    (hone : packet.questions.length = 1) (hsize : ∀ l ∈ labels, 1 ≤ l.length ∧ l.length ≤ 63)
    (hsection : questionSection raw = questionWire labels qtype qclass) :
    packet.questions = [⟨Text.join '.' (labels.map labelText), QueryType.fromNum qtype⟩] := by
  have hread : DnsPacket.ReadAt raw raw packet c := DnsPacket.read_at (fun _ _ _ hb => hb) hparse
  obtain ⟨q, hq⟩ := List.length_eq_one_iff.mp hone
  have hget := hread.questions 0 (by rw [hone]; exact Nat.one_pos)
  have hraw : raw = raw.take 12 ++ questionWire labels qtype qclass ++
      (raw.drop 12).drop (questionStart raw (questionCount raw) - 12) := by
    rw [← hsection, questionSection, List.append_assoc, List.take_append_drop,
      List.take_append_drop]
  have hlen : (raw.take 12).length = 12 := by
    rw [List.length_take]
    exact Nat.min_eq_left hread.header
  have hdecode := decodes_questionWire hsize qtype qclass (raw.take 12)
    ((raw.drop 12).drop (questionStart raw (questionCount raw) - 12))
  rw [← hraw, hlen] at hdecode
  obtain ⟨hsame, -⟩ := EStateM.Result.ok.inj (hdecode.symm.trans hget)
  simp only [hq, List.getElem_cons_zero] at hsame ⊢
  rw [hsame]

/-- The answer's question section is the query's with the capitals of the name made small and the
class IN; the type is kept, whether it has a reader or not. -/
theorem Blocking.synthesize_question (policy : BlockPolicy) {raw : Bytes} {packet : DnsPacket}
    {c : BytePacketBuffer} {labels : List Bytes} {qtype qclass : UInt16}
    (hparse : DnsPacket.fromBuffer (fromBytes raw) = .ok packet c)
    (hone : packet.questions.length = 1) (hplain : PlainLabels labels)
    (hsection : questionSection raw = questionWire labels qtype qclass) :
    ∃ out, synthesize raw policy = .ok out ∧
      questionSection out = questionWire (labels.map (List.map foldCase)) qtype 1 := by
  have hquestion := questions_of_section hparse hone hplain.size hsection
  have hwritable : ∀ q ∈ packet.questions, WritableName q.name := by
    simpa [hquestion] using writable_of_plain hplain
  refine ⟨_, synthesize_wire policy hparse hwritable, ?_⟩
  -- the answer is a header, the question and what follows
  have hwire : (blockPacket packet policy).wire = (blockPacket packet policy).countedHeader.wire ++
      questionWire (labels.map (List.map foldCase)) qtype 1 ++
        (modeAnswers policy packet.questions.head?).flatMap DnsRecord.wire := by
    rw [DnsPacket.wire, blockPacket_eq, hquestion]
    simp [DnsQuestion.wire, questionWire, nameWire_of_plain hplain, QueryType.toNum_fromNum]
  have hcount : questionCount (blockPacket packet policy).wire = 1 := by
    have hheader := DnsHeader.decodes_reread (blockPacket packet policy).countedHeader []
      (questionWire (labels.map (List.map foldCase)) qtype 1 ++
        (modeAnswers policy packet.questions.head?).flatMap DnsRecord.wire)
    rw [List.nil_append, ← List.append_assoc, ← hwire] at hheader
    have hone' : (blockPacket packet policy).countedHeader.reread.questions.toNat = 1 := by
      rw [blockPacket_eq, hquestion]
      rfl
    exact (DnsHeader.read_counts hheader).1.symm.trans hone'
  rw [hwire] at hcount ⊢
  refine questionSection_of_wire rfl ?_ hcount
  simpa using hplain.size

end

section

attribute [local instance] Text.asciiTables

/-- One question for `A.b` of class CHAOS. -/
def capitalQuery : Bytes := [0, 7, 1, 0, 0, 1, 0, 0, 0, 0, 0, 0, 1, 65, 1, 98, 0, 0, 1, 0, 3]

def capitalPacket : DnsPacket :=
  ⟨DnsHeader.ofFlags 7 1 0 1 0 0 0, [⟨['a', '.', 'b'], .A⟩], [], [], []⟩

theorem capitalQuery_section :
    questionSection capitalQuery = questionWire [[65], [98]] 1 3 := by decide +kernel

theorem Blocking.synthesize_question_capital :
    ∃ out, synthesize capitalQuery customPolicy = .ok out ∧
      questionSection out = questionWire ([[65], [98]].map (List.map foldCase)) 1 1 := by
  have hparse : DnsPacket.fromBuffer (fromBytes capitalQuery) =
      .ok capitalPacket ⟨capitalQuery, 21⟩ := by decide +kernel
  exact Blocking.synthesize_question customPolicy hparse rfl
    ⟨by decide, by decide, by simp, by simp⟩ capitalQuery_section

/-- The capital and the class do not come back. -/
theorem Blocking.question_not_echoed :
    DnsPacket.fromBuffer (fromBytes capitalQuery) = .ok capitalPacket ⟨capitalQuery, 21⟩ ∧
      questionSection capitalQuery = questionWire [[65], [98]] 1 3 ∧
      ∃ out, synthesize capitalQuery customPolicy = .ok out ∧
        questionSection out = questionWire [[97], [98]] 1 1 ∧
        questionSection out ≠ questionSection capitalQuery := by
  have hparse : DnsPacket.fromBuffer (fromBytes capitalQuery) =
      .ok capitalPacket ⟨capitalQuery, 21⟩ := by decide +kernel
  refine ⟨hparse, capitalQuery_section,
    _, synthesize_wire customPolicy hparse (by decide +kernel), ?_, ?_⟩ <;> decide +kernel

end

end Brdns
