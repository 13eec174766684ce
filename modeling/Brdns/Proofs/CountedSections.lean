import Brdns.Proofs.Messages

/-! The counts of a written message. They are taken from the sections before the records are
written, and a record of a type without a writer is counted all the same. -/

namespace Brdns

open Lib CursorM BytePacketBuffer Layout

namespace DnsRecord

def Written : DnsRecord → Prop
  | .A _ _ _ | .AAAA _ _ _ | .CNAME _ _ _ => True
  | .UNKNOWN _ _ _ _ | .MX _ _ _ _ | .NS _ _ _ | .TXT _ _ _ => False

instance (r : DnsRecord) : Decidable r.Written := by
  cases r <;> unfold Written <;> infer_instance

theorem wire_of_not_written {r : DnsRecord} (h : ¬ r.Written) : r.wire = [] := by
  cases r with
  | A | AAAA | CNAME => exact absurd trivial h
  | UNKNOWN | MX | NS | TXT => rfl

theorem legal_of_written {r : DnsRecord} (h : r.Written)
    (hnames : ∀ name ∈ r.names, LegalName name) : LegalRecord r := by
  cases r with
  | A domain addr ttl => exact .A (hnames domain List.mem_cons_self)
  | AAAA domain addr ttl => exact .AAAA (hnames domain List.mem_cons_self)
  | CNAME domain host ttl =>
    exact .CNAME (hnames domain List.mem_cons_self)
      (hnames host (List.mem_cons_of_mem _ List.mem_cons_self))
  | UNKNOWN | MX | NS | TXT => exact h.elim

theorem writtenNames_subset (r : DnsRecord) : r.writtenNames ⊆ r.names := by
  cases r <;> simp [writtenNames, names]

/-- What is written of a row of records is what is written of those with a writer. -/
theorem flatMap_wire_filter (recs : List DnsRecord) :
    (recs.filter fun r => decide r.Written).flatMap wire = recs.flatMap wire := by
  induction recs with
  | nil => rfl
  | cons r recs ih =>
    by_cases hr : r.Written
    · rw [List.filter_cons_of_pos (by simpa using hr), List.flatMap_cons, List.flatMap_cons, ih]
    · rw [List.filter_cons_of_neg (by simpa using hr), List.flatMap_cons, wire_of_not_written hr,
        ih, List.nil_append]

/-- Nothing is read at the end of a buffer. -/
theorem readMany_at_end [Text.UnicodeTables] {buf : Bytes} {n : ℕ} {recs : List DnsRecord}
    {c : BytePacketBuffer} (hn : 0 < n) :
    readMany DnsRecord.read n ⟨buf, buf.length⟩ ≠ .ok recs c := by
  intro h
  obtain ⟨m, rfl⟩ := Nat.exists_eq_succ_of_ne_zero hn.ne'
  obtain ⟨r, c₁, hr, -⟩ := bind_ok_iff.mp h
  exact Nat.lt_irrefl _ (read_at hr).start

end DnsRecord

namespace DnsPacket

variable [Text.UnicodeTables]

/-- If the packet is written, the written message is read back with as many entries in each
section. -/
def KeepsCounts (packet : DnsPacket) : Prop :=
  ∀ r out, packet.write BytePacketBuffer.new = .ok r out →
    ∃ back c, fromBuffer (fromBytes (asBytes out)) = .ok back c ∧
      back.questions.length = packet.questions.length ∧
      back.answers.length = packet.answers.length ∧
      back.authorities.length = packet.authorities.length ∧
      back.resources.length = packet.resources.length

omit [Text.UnicodeTables] in
theorem mem_records {packet : DnsPacket} {r : DnsRecord} : r ∈ packet.records ↔
    r ∈ packet.answers ∨ r ∈ packet.authorities ∨ r ∈ packet.resources := by
  simp [records]

omit [Text.UnicodeTables] in
theorem legal_names {packet : DnsPacket} (h : ∀ name ∈ packet.names, LegalName name) :
    (∀ q ∈ packet.questions, LegalName q.name) ∧
      ∀ r ∈ packet.records, ∀ name ∈ r.names, LegalName name :=
  ⟨fun _ hq => h _ (List.mem_append_left _ (List.mem_map_of_mem hq)),
    fun r hr _ hname => h _ (List.mem_append_right _ (List.mem_flatMap.mpr ⟨r, hr, hname⟩))⟩

omit [Text.UnicodeTables] in
theorem writable_of_names {packet : DnsPacket} (h : ∀ name ∈ packet.names, LegalName name) :
    packet.Writable := by
  obtain ⟨hquestions, hrecords⟩ := legal_names h
  have hwritten {r : DnsRecord} (hr : r ∈ packet.records) :
      ∀ name ∈ r.writtenNames, WritableName name := fun name hname =>
    (hrecords r hr name (r.writtenNames_subset hname)).writable
  exact ⟨fun q hq => (hquestions q hq).writable,
    fun r hr => hwritten (mem_records.mpr (.inl hr)),
    fun r hr => hwritten (mem_records.mpr (.inr (.inl hr))),
    fun r hr => hwritten (mem_records.mpr (.inr (.inr hr)))⟩

/-- Behind a written header and questions, all records of the packet are read. -/
theorem records_read {packet back : DnsPacket} {rest : Bytes} {c : BytePacketBuffer}
    (hshort : packet.ShortSections) (hnames : ∀ q ∈ packet.questions, LegalName q.name)
    (h : fromBuffer (fromBytes (packet.countedHeader.wire ++
      packet.questions.flatMap DnsQuestion.wire ++ rest)) = .ok back c) :
    readMany DnsRecord.read packet.records.length ⟨packet.countedHeader.wire ++
      packet.questions.flatMap DnsQuestion.wire ++ rest, (packet.countedHeader.wire ++
        packet.questions.flatMap DnsQuestion.wire).length⟩ = .ok back.records c := by
  obtain ⟨c₁, c₂, hh, hq, ha, hn, hr, hrec⟩ := fromBuffer_ok_iff.mp h
  obtain ⟨hqc, hac, hnc, hrc⟩ := counts hshort
  -- the header as read back has the packet's counts
  have hheader := DnsHeader.decodes_reread packet.countedHeader []
    (packet.questions.flatMap DnsQuestion.wire ++ rest)
  rw [List.nil_append, ← List.append_assoc] at hheader
  obtain ⟨hback, rfl⟩ := EStateM.Result.ok.inj (hheader.symm.trans hh)
  rw [← hback] at hq ha hn hr
  change readMany DnsQuestion.read packet.countedHeader.questions.toNat _ = _ at hq
  rw [hqc] at hq
  have hquestion := Decodes.readMany_map packet.questions
    (fun q hq => DnsQuestion.decodes_reread (hnames q hq)) packet.countedHeader.wire rest
  obtain ⟨-, rfl⟩ := EStateM.Result.ok.inj (hquestion.symm.trans hq)
  have htotal : back.answers.length + back.authorities.length + back.resources.length =
      packet.records.length := by
    rw [ha, hn, hr, records, List.length_append, List.length_append, ← hac, ← hnc, ← hrc]
    rfl
  rwa [htotal, ← List.length_append] at hrec

/-- With a record that is not written the message ends before its last counted record. -/
theorem not_read_back {packet : DnsPacket} (hshort : packet.ShortSections)
    (hnames : ∀ name ∈ packet.names, LegalName name)
    (hbad : ∃ r ∈ packet.records, ¬ r.Written) {back : DnsPacket} {c : BytePacketBuffer} :
    fromBuffer (fromBytes packet.wire) ≠ .ok back c := by
  intro h
  obtain ⟨hquestions, hrecords⟩ := legal_names hnames
  let written := packet.records.filter fun r => decide r.Written
  have hwire : packet.wire = packet.countedHeader.wire ++
      packet.questions.flatMap DnsQuestion.wire ++ written.flatMap DnsRecord.wire := by
    rw [DnsRecord.flatMap_wire_filter, records, List.flatMap_append, List.flatMap_append, wire]
    simp only [List.append_assoc]
  rw [hwire] at h
  have hrec := records_read hshort hquestions h
  -- the records that were written take up the rest of the message
  have hlegal : ∀ r ∈ written, LegalRecord r := by
    intro r hr
    obtain ⟨hmem, hw⟩ := List.mem_filter.mp hr
    exact DnsRecord.legal_of_written (of_decide_eq_true hw) (hrecords r hmem)
  have hrecord := Decodes.readMany written (fun r hr => DnsRecord.decodes_read (hlegal r hr))
    (packet.countedHeader.wire ++ packet.questions.flatMap DnsQuestion.wire) []
  rw [List.append_nil] at hrecord
  have hfewer : written.length < packet.records.length :=
    List.length_filter_lt_length_iff_exists.mpr (by simpa using hbad)
  obtain ⟨k, hk⟩ := Nat.exists_eq_add_of_lt hfewer
  have hsplit : packet.records.length = written.length + (k + 1) := hk
  have hlength : (back.records.take written.length).length = written.length := by
    rw [List.length_take, readMany_length hrec, hsplit]
    omega
  rw [hsplit, ← List.take_append_drop written.length back.records] at hrec
  obtain ⟨c₃, hfirst, hrest⟩ := (readMany_append_iff hlength).mp hrec
  obtain ⟨-, rfl⟩ := EStateM.Result.ok.inj (hrecord.symm.trans hfirst)
  rw [← List.length_append] at hrest
  exact DnsRecord.readMany_at_end (Nat.succ_pos k) hrest

/-- The counts of a written message are true exactly when every record of it has a writer; a
packet of legal names is written in any case. -/
theorem keepsCounts_iff {packet : DnsPacket} (hshort : packet.ShortSections)
    (hnames : ∀ name ∈ packet.names, LegalName name) :
    packet.KeepsCounts ↔ ∀ r ∈ packet.records, r.Written := by
  obtain ⟨hquestions, hrecords⟩ := legal_names hnames
  obtain ⟨r, out, hwrite, hout⟩ :=
    (emits_write (writable_of_names hnames)).of_start (List.replicate 512 0)
  constructor
  · intro hkeeps
    by_contra hbad
    simp only [not_forall] at hbad
    obtain ⟨rec, hrec, hw⟩ := hbad
    obtain ⟨back, c, hread, -⟩ := hkeeps r out hwrite
    rw [asBytes, hout] at hread
    exact not_read_back hshort hnames ⟨rec, hrec, hw⟩ hread
  · intro hwritten r' out' hwrite'
    obtain ⟨rfl, rfl⟩ := EStateM.Result.ok.inj (hwrite.symm.trans hwrite')
    have hlegal {rec : DnsRecord} (hrec : rec ∈ packet.records) : LegalRecord rec :=
      DnsRecord.legal_of_written (hwritten rec hrec) (hrecords rec hrec)
    have hread := (decodes_reread hshort hquestions
      (fun _ hr => hlegal (mem_records.mpr (.inl hr)))
      (fun _ hr => hlegal (mem_records.mpr (.inr (.inl hr))))
      (fun _ hr => hlegal (mem_records.mpr (.inr (.inr hr))))).of_list
    rw [asBytes, hout]
    exact ⟨_, _, hread, List.length_map _, rfl, rfl, rfl⟩

end DnsPacket

section

attribute [local instance] Text.asciiTables

/-- Two answers for `a`: an alias for `b`, and its address. -/
def aliasAnswers : DnsPacket :=
  ⟨DnsHeader.new, [⟨['a'], .A⟩], [.CNAME ['a'] ['b'] 60, .A ['b'] Ipv4Addr.UNSPECIFIED 60], [], []⟩

theorem DnsPacket.keepsCounts_iff_alias :
    aliasAnswers.KeepsCounts ↔ ∀ r ∈ aliasAnswers.records, r.Written := by
  have ha : LegalName ['a'] := by decide +kernel
  have hb : LegalName ['b'] := by decide +kernel
  refine DnsPacket.keepsCounts_iff ⟨by decide, by decide, by decide, by decide⟩ ?_
  simp [DnsPacket.names, DnsPacket.records, DnsRecord.names, aliasAnswers, ha, hb]

def delegation : DnsPacket :=
  ⟨DnsHeader.new, [⟨['a'], .NS⟩], [], [.NS ['a'] ['b'] 60], []⟩

def delegationBytes : Bytes :=
  [0, 0, 0, 0, 0, 1, 0, 0, 0, 1, 0, 0, 1, 97, 0, 0, 2, 0, 1]

/-- The message announces one authority and ends after its question. -/
theorem counted_record_missing :
    ∃ r out, delegation.write BytePacketBuffer.new = .ok r out ∧ asBytes out = delegationBytes ∧
      DnsPacket.fromBuffer (fromBytes delegationBytes) =
        .error .endOfBuffer ⟨delegationBytes, 19⟩ := by
  have hwritable : delegation.Writable := by
    refine ⟨?_, by simp [delegation], by simp [delegation, DnsRecord.writtenNames],
      by simp [delegation]⟩
    have ha : WritableName ['a'] := by decide +kernel
    simpa [delegation] using ha
  obtain ⟨r, out, hwrite, hout⟩ :=
    (DnsPacket.emits_write hwritable).of_start (List.replicate 512 0)
  have hwire : delegation.wire = delegationBytes := by decide +kernel
  exact ⟨r, out, hwrite, hout.trans hwire, by decide +kernel⟩

end

end Brdns
