import Brdns.Lib.Relator
import Brdns.Proofs.Layout
import Mathlib.Order.Iterate

/-! Whole messages by their layout: each question and each record of an accepted message was read
where the layout puts it, and the message reads the same in every buffer that keeps its octets. -/

namespace Brdns

open Lib DnsName CursorM BytePacketBuffer Layout

variable [Text.UnicodeTables]

omit [Text.UnicodeTables] in
theorem DnsHeader.read_counts {c c' : BytePacketBuffer} {header : DnsHeader}
    (h : DnsHeader.read c = .ok header c') :
    header.questions.toNat = word16 c.buf (c.pos + 4) ∧
      header.answers.toNat = word16 c.buf (c.pos + 6) ∧
      header.authoritativeEntries.toNat = word16 c.buf (c.pos + 8) ∧
      header.resourceEntries.toNat = word16 c.buf (c.pos + 10) := by
  obtain ⟨id, c₁, h₁, h⟩ := bind_ok_iff.mp h
  obtain ⟨flags, c₂, h₂, h⟩ := bind_ok_iff.mp h
  obtain ⟨questions, c₃, h₃, h⟩ := bind_ok_iff.mp h
  obtain ⟨answers, c₄, h₄, h⟩ := bind_ok_iff.mp h
  obtain ⟨authoritative, c₅, h₅, h⟩ := bind_ok_iff.mp h
  obtain ⟨resource, c₆, h₆, h⟩ := bind_ok_iff.mp h
  cases h
  obtain rfl := readU16_fixed.advances _ _ _ h₁
  obtain rfl := readU16_fixed.advances _ _ _ h₂
  have hq : questions.toNat = word16 c.buf (c.pos + 4) := by rw [readU16_value h₃]
  obtain rfl := readU16_fixed.advances _ _ _ h₃
  have ha : answers.toNat = word16 c.buf (c.pos + 6) := by rw [readU16_value h₄]
  obtain rfl := readU16_fixed.advances _ _ _ h₄
  have hn : authoritative.toNat = word16 c.buf (c.pos + 8) := by rw [readU16_value h₅]
  obtain rfl := readU16_fixed.advances _ _ _ h₅
  have hr : resource.toNat = word16 c.buf (c.pos + 10) := by rw [readU16_value h₆]
  exact ⟨hq, ha, hn, hr⟩

namespace DnsPacket

def records (packet : DnsPacket) : List DnsRecord :=
  packet.answers ++ packet.authorities ++ packet.resources

def names (packet : DnsPacket) : List Text :=
  packet.questions.map DnsQuestion.name ++ packet.records.flatMap DnsRecord.names

/-- A message is a header, its questions, and the records of its sections in one row. -/
theorem fromBuffer_ok_iff {c₀ c : BytePacketBuffer} {packet : DnsPacket} :
    fromBuffer c₀ = .ok packet c ↔ ∃ c₁ c₂, DnsHeader.read c₀ = .ok packet.header c₁ ∧
      readMany DnsQuestion.read packet.header.questions.toNat c₁ = .ok packet.questions c₂ ∧
      packet.answers.length = packet.header.answers.toNat ∧
      packet.authorities.length = packet.header.authoritativeEntries.toNat ∧
      packet.resources.length = packet.header.resourceEntries.toNat ∧
      readMany DnsRecord.read (packet.answers.length + packet.authorities.length +
        packet.resources.length) c₂ = .ok packet.records c := by
  constructor
  · intro h
    obtain ⟨header, c₁, hheader, h⟩ := bind_ok_iff.mp h
    obtain ⟨questions, c₂, hquestions, h⟩ := bind_ok_iff.mp h
    obtain ⟨answers, c₃, hanswers, h⟩ := bind_ok_iff.mp h
    obtain ⟨authorities, c₄, hauthorities, h⟩ := bind_ok_iff.mp h
    obtain ⟨resources, c₅, hresources, h⟩ := bind_ok_iff.mp h
    cases h
    have ha := readMany_length hanswers
    have hn := readMany_length hauthorities
    have hr := readMany_length hresources
    refine ⟨c₁, c₂, hheader, hquestions, ha, hn, hr, ?_⟩
    rw [← ha] at hanswers
    rw [← hn] at hauthorities
    rw [← hr] at hresources
    exact (readMany_append_iff List.length_append).mpr
      ⟨c₄, (readMany_append_iff rfl).mpr ⟨c₃, hanswers, hauthorities⟩, hresources⟩
  · rintro ⟨c₁, c₂, hheader, hquestions, ha, hn, hr, hrecords⟩
    obtain ⟨c₄, hboth, hresources⟩ := (readMany_append_iff List.length_append).mp hrecords
    obtain ⟨c₃, hanswers, hauthorities⟩ := (readMany_append_iff rfl).mp hboth
    rw [ha] at hanswers
    rw [hn] at hauthorities
    rw [hr] at hresources
    exact bind_ok_iff.mpr ⟨_, c₁, hheader, bind_ok_iff.mpr ⟨_, c₂, hquestions,
      bind_ok_iff.mpr ⟨_, c₃, hanswers, bind_ok_iff.mpr ⟨_, c₄, hauthorities,
        bind_ok_iff.mpr ⟨_, c, hresources, rfl⟩⟩⟩⟩⟩

end DnsPacket

/-- `buf` is what is left of `msg` when octets are cut off its end. -/
abbrev CutOf (buf msg : Bytes) : Prop := Keeps (fun _ => True) buf msg

omit [Text.UnicodeTables] in
theorem cutOf_take {msg : Bytes} {k m : ℕ} (h : k ≤ m) : CutOf (msg.take k) (msg.take m) := by
  intro i b _ hb
  have hlt := (List.getElem?_eq_some_iff.mp hb).1
  rw [List.length_take] at hlt
  rw [List.getElem?_take_of_lt (by omega)] at hb ⊢
  exact hb

section Cut

variable {buf msg : Bytes} {pos : ℕ} {c : BytePacketBuffer}

omit [Text.UnicodeTables] in
theorem word16_cut (hcut : CutOf buf msg) {i : ℕ} (hi : i + 2 ≤ buf.length) :
    word16 buf i = word16 msg i := by
  have hoctet {j : ℕ} (hj : j < buf.length) : octet buf j = octet msg j := by
    have hb : buf[j]? = some buf[j] := List.getElem?_eq_getElem hj
    rw [octet_eq hb, octet_eq (hcut j _ trivial hb)]
  rw [word16, word16, hoctet (by omega), hoctet (by omega)]

theorem DnsQuestion.read_cut (hcut : CutOf buf msg) {q : DnsQuestion}
    (h : DnsQuestion.read ⟨buf, pos⟩ = .ok q c) : c = ⟨buf, questionEnd msg pos⟩ := by
  obtain ⟨hbuf, h'⟩ := DnsQuestion.read_carries hcut (fun _ _ => trivial) (fun _ _ => trivial)
    q c h
  have hend := (Cursor.mk.inj (DnsQuestion.read_at h').1).2
  rw [← hend, ← hbuf]

theorem DnsRecord.read_cut (hcut : CutOf buf msg) {r : DnsRecord}
    (h : DnsRecord.read ⟨buf, pos⟩ = .ok r c) :
    c = ⟨buf, recordEnd msg pos⟩ ∧ recordNames msg pos = recordNames buf pos := by
  obtain ⟨hbuf, h'⟩ := DnsRecord.read_carries hcut (fun _ _ => trivial) (fun _ _ _ _ => trivial)
    r c h
  have hend := (Cursor.mk.inj (DnsRecord.read_at h').cursor).2
  have hread := DnsRecord.read_at h
  refine ⟨by rw [← hend, ← hbuf], ?_⟩
  obtain ⟨owner, -, jumps, labels, stop, hname, -⟩ :=
    forall₂_mem_right hread.names List.mem_cons_self
  have hkept := hname.kept fun i b _ => hcut i b trivial
  have hnameEnd : nameEnd msg pos = nameEnd buf pos := by rw [hkept.nameEnd_eq, hname.nameEnd_eq]
  have hfixed := hread.fixed
  rw [rdataStart] at hfixed
  rw [recordNames, recordNames, recordType, recordType, rdataStart, rdataStart, hnameEnd,
    word16_cut hcut (by omega)]

end Cut

namespace DnsPacket

structure ReadAt (buf msg : Bytes) (packet : DnsPacket) (c : BytePacketBuffer) : Prop where
  cursor : c = ⟨buf, messageEnd msg⟩
  header : 12 ≤ buf.length
  questions_length : packet.questions.length = questionCount msg
  questions : ∀ i (hi : i < packet.questions.length), DnsQuestion.read
    ⟨buf, questionStart msg i⟩ = .ok packet.questions[i] ⟨buf, questionStart msg (i + 1)⟩
  records_length : packet.records.length = recordCount msg
  records : ∀ i (hi : i < packet.records.length), DnsRecord.read
    ⟨buf, recordStart msg i⟩ = .ok packet.records[i] ⟨buf, recordStart msg (i + 1)⟩

theorem read_at {buf msg : Bytes} {packet : DnsPacket} {c : BytePacketBuffer}
    (hcut : CutOf buf msg) (h : fromBuffer (fromBytes buf) = .ok packet c) :
    ReadAt buf msg packet c := by
  obtain ⟨c₁, c₂, hheader, hquestions, ha, hn, hr, hrecords⟩ := fromBuffer_ok_iff.mp h
  have hsize : 12 ≤ buf.length := by
    have := DnsHeader.read_fixed.inside _ _ _ hheader 11 (by omega)
    simp only [fromBytes, Cursor.ofList] at this
    omega
  obtain ⟨hqc, hac, hnc, hrc⟩ := DnsHeader.read_counts hheader
  simp only [fromBytes, Cursor.ofList, Nat.zero_add] at hqc hac hnc hrc
  rw [word16_cut hcut (by omega)] at hqc hac hnc hrc
  obtain rfl := DnsHeader.read_fixed.advances _ _ _ hheader
  have hqEnds : EndsAt DnsQuestion.read buf (questionEnd msg) :=
    fun _ _ _ h => DnsQuestion.read_cut hcut h
  have hrEnds : EndsAt DnsRecord.read buf (recordEnd msg) :=
    fun _ _ _ h => (DnsRecord.read_cut hcut h).1
  obtain ⟨rfl, hqlen, hqruns⟩ := hqEnds.readMany hquestions
  obtain ⟨rfl, hrlen, hrruns⟩ := hrEnds.readMany hrecords
  have hcount : recordCount msg = packet.answers.length + packet.authorities.length +
      packet.resources.length := by
    rw [recordCount, ha, hn, hr, hac, hnc, hrc]
  rw [hqc] at hqlen hrruns ⊢
  rw [← hcount] at hrlen
  exact ⟨by rw [messageEnd, hcount]; rfl, hsize, hqlen, hqruns, hrlen, hrruns⟩

/-- The names of a message are those that start where the layout says. -/
theorem ReadAt.names {buf msg : Bytes} {packet : DnsPacket} {c : BytePacketBuffer}
    (h : ReadAt buf msg packet c) (hcut : CutOf buf msg) :
    (∀ name ∈ packet.names, ∃ pos, NameStart msg pos ∧ NameAt buf name pos) ∧
      ∀ pos, NameStart msg pos → ∃ name ∈ packet.names, NameAt buf name pos := by
  have hrecord (i : ℕ) (hi : i < packet.records.length) :
      List.Forall₂ (NameAt buf) packet.records[i].names
        (recordNames msg (recordStart msg i)) := by
    rw [(DnsRecord.read_cut hcut (h.records i hi)).2]
    exact (DnsRecord.read_at (h.records i hi)).names
  constructor
  · intro name hname
    rcases List.mem_append.mp hname with hname | hname
    · obtain ⟨q, hq, rfl⟩ := List.mem_map.mp hname
      obtain ⟨i, hi, rfl⟩ := List.getElem_of_mem hq
      exact ⟨questionStart msg i, .inl ⟨i, h.questions_length ▸ hi, rfl⟩,
        (DnsQuestion.read_at (h.questions i hi)).2.2.2⟩
    · obtain ⟨r, hr, hname⟩ := List.mem_flatMap.mp hname
      obtain ⟨i, hi, rfl⟩ := List.getElem_of_mem hr
      obtain ⟨pos, hpos, hat⟩ := forall₂_mem_left (hrecord i hi) hname
      exact ⟨pos, .inr ⟨i, h.records_length ▸ hi, hpos⟩, hat⟩
  · rintro pos (⟨i, hi, rfl⟩ | ⟨i, hi, hpos⟩)
    · have hi' : i < packet.questions.length := h.questions_length.symm ▸ hi
      exact ⟨_, List.mem_append_left _ (List.mem_map_of_mem (List.getElem_mem hi')),
        (DnsQuestion.read_at (h.questions i hi')).2.2.2⟩
    · have hi' : i < packet.records.length := h.records_length.symm ▸ hi
      obtain ⟨name, hname, hat⟩ := forall₂_mem_right (hrecord i hi') hpos
      exact ⟨name, List.mem_append_right _
        (List.mem_flatMap.mpr ⟨_, List.getElem_mem hi', hname⟩), hat⟩

/-- Everything before the records was looked at. -/
theorem ReadAt.questions_le {buf msg : Bytes} {packet : DnsPacket} {c : BytePacketBuffer}
    (h : ReadAt buf msg packet c) : questionStart msg (questionCount msg) ≤ buf.length := by
  cases hn : questionCount msg with
  | zero => exact h.header
  | succ n =>
    have hi : n < packet.questions.length := by
      rw [h.questions_length, hn]
      exact Nat.lt_succ_self n
    obtain ⟨hc, -, hle, -⟩ := DnsQuestion.read_at (h.questions n hi)
    rwa [(Cursor.mk.inj hc).2]

/-- A message reads the same in every buffer that keeps what it uses: the octets up to where each
part is looked at, and those its names use. -/
theorem fromBuffer_carries {K : ℕ → Prop} {msg msg' : Bytes} (hkeep : Keeps K msg msg')
    (hheader : ∀ i < 12, K i)
    (hquestions : ∀ j < questionCount msg, ∀ i < questionEnd msg (questionStart msg j), K i)
    (hrecords : ∀ j < recordCount msg, ∀ i < readEnd msg (recordStart msg j), K i)
    (hnames : ∀ pos, NameStart msg pos → ∀ i, Touches msg pos i → K i) :
    Carries fromBuffer msg msg' 0 := by
  intro packet c h
  have hread : ReadAt msg msg packet c := read_at (fun _ _ _ hb => hb) h
  obtain ⟨c₁, c₂, hh, hq, ha, hn, hr, hrec⟩ := fromBuffer_ok_iff.mp h
  obtain ⟨-, hh'⟩ := DnsHeader.read_fixed.carries K msg msg' 0 hkeep
    (fun i hi => hheader _ (by omega)) _ _ hh
  obtain rfl := DnsHeader.read_fixed.advances _ _ _ hh
  have hqcount : packet.header.questions.toNat = questionCount msg :=
    (readMany_length hq).symm.trans hread.questions_length
  have hrcount : packet.answers.length + packet.authorities.length + packet.resources.length =
      recordCount msg := (readMany_length hrec).symm.trans hread.records_length
  rw [hqcount] at hq
  rw [hrcount] at hrec
  obtain ⟨-, hq'⟩ := Carries.readMany (DnsQuestion.endsAt msg) (fun j hj =>
    DnsQuestion.read_carries hkeep (hquestions j hj) (hnames _ (.inl ⟨j, hj, rfl⟩))) _ _ hq
  obtain ⟨rfl, -⟩ := (DnsQuestion.endsAt msg).readMany hq
  obtain ⟨hbuf, hrec'⟩ := Carries.readMany (DnsRecord.endsAt msg) (fun j hj =>
    DnsRecord.read_carries hkeep (hrecords j hj)
      fun pos hpos => hnames pos (.inr ⟨j, hj, hpos⟩)) _ _ hrec
  refine ⟨hbuf, fromBuffer_ok_iff.mpr
    ⟨_, ⟨msg', questionStart msg (questionCount msg)⟩, hh', ?_, ha, hn, hr, ?_⟩⟩
  · rw [hqcount]
    exact hq'
  · rw [hrcount]
    exact hrec'

end DnsPacket

end Brdns
