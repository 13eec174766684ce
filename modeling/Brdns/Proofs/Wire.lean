import Brdns.Proofs.Octets
import Brdns.Spec.Packet

/-! The round trip of messages: what `write` puts into a buffer, `from_buffer` reads back. Each
part has one encoding that its writer emits and its reader decodes. -/

namespace Brdns

open Lib CursorM Word BytePacketBuffer

/-! ### Headers -/

private theorem flagsA_table : ∀ (rd tc aa response : Bool) (opcode : Fin 16),
    let a := rd.toUInt8 ||| (tc.toUInt8 <<< 1) ||| (aa.toUInt8 <<< 2) |||
      (UInt8.ofNat opcode.val <<< 3) ||| (response.toUInt8 <<< 7)
    isSet a 0 = rd ∧ isSet a 1 = tc ∧ isSet a 2 = aa ∧
      (a >>> 3) &&& 0x0F = UInt8.ofNat opcode.val ∧ isSet a 7 = response := by
  decide +kernel

private theorem flagsB_table (rescode : ResultCode) : ∀ cd ad z ra : Bool,
    let b := rescode.toU8 ||| (cd.toUInt8 <<< 4) ||| (ad.toUInt8 <<< 5) ||| (z.toUInt8 <<< 6) |||
      (ra.toUInt8 <<< 7)
    ResultCode.fromNum (b &&& 0x0F) = rescode ∧ isSet b 4 = cd ∧ isSet b 5 = ad ∧
      isSet b 6 = z ∧ isSet b 7 = ra := by
  cases rescode <;> decide +kernel

namespace DnsHeader

/-- The flag octets give the flags back. -/
theorem ofFlags_flags {h : DnsHeader} (hopcode : h.opcode.toNat < 16) :
    ofFlags h.id h.flagsA h.flagsB h.questions h.answers h.authoritativeEntries
      h.resourceEntries = h := by
  obtain ⟨rd, tc, aa, opcode, response⟩ := flagsA_table h.recursionDesired h.truncatedMessage
    h.authoritativeAnswer h.response ⟨h.opcode.toNat, hopcode⟩
  obtain ⟨rescode, cd, ad, z, ra⟩ := flagsB_table h.rescode h.checkingDisabled h.authedData h.z
    h.recursionAvailable
  simp only [UInt8.ofNat_toNat] at rd tc aa opcode response
  simp only [ofFlags, flagsA, flagsB, rd, tc, aa, opcode, response, rescode, cd, ad, z, ra]

def wire (h : DnsHeader) : Bytes :=
  octets16 h.id ++ ([h.flagsA] ++ ([h.flagsB] ++ (octets16 h.questions ++ (octets16 h.answers ++
    (octets16 h.authoritativeEntries ++ octets16 h.resourceEntries)))))

theorem emits_write (h : DnsHeader) : Emits h.write h.wire :=
  (emits_writeU16 _).bind fun _ => (emits_writeU8 _).bind fun _ => (emits_writeU8 _).bind fun _ =>
    (emits_writeU16 _).bind fun _ => (emits_writeU16 _).bind fun _ => (emits_writeU16 _).bind
      fun _ => emits_writeU16 _

/-- What is read of any header that was written: its flags as the flag octets have them. -/
def reread (h : DnsHeader) : DnsHeader :=
  ofFlags h.id h.flagsA h.flagsB h.questions h.answers h.authoritativeEntries h.resourceEntries

theorem decodes_reread (h : DnsHeader) : Decodes DnsHeader.read h.wire h.reread := by
  let flags := (h.flagsA.toUInt16 <<< 8) ||| h.flagsB.toUInt16
  have hread : Decodes DnsHeader.read h.wire (ofFlags h.id (flags >>> 8).toUInt8
      (flags &&& 0xFF).toUInt8 h.questions h.answers h.authoritativeEntries h.resourceEntries) :=
    (decodes_readU16 h.id).bind ((decodes_join16 h.flagsA h.flagsB).bind
      ((decodes_readU16 h.questions).bind ((decodes_readU16 h.answers).bind
        ((decodes_readU16 h.authoritativeEntries).bind
          (decodes_readU16 h.resourceEntries).bind_pure))))
  rwa [hi_join16, lo_join16] at hread

theorem read_fixed : Fixed DnsHeader.read 12 :=
  readU16_fixed.bind fun _ => readU16_fixed.bind fun _ => readU16_fixed.bind fun _ =>
    readU16_fixed.bind fun _ => readU16_fixed.bind fun _ => readU16_fixed.bind fun _ => .pure _

end DnsHeader

/-! ### Questions -/

theorem QueryType.toNum_fromNum (num : UInt16) : (fromNum num).toNum = num := by
  unfold fromNum
  split_ifs with h₁ h₂ h₃ h₄ h₅ h₆
  exacts [h₁.symm, h₂.symm, h₃.symm, h₄.symm, h₅.symm, h₆.symm, rfl]

theorem QueryType.fromNum_toNum {qtype : QueryType} (h : qtype ∈ Set.range QueryType.fromNum) :
    QueryType.fromNum qtype.toNum = qtype := by
  obtain ⟨num, rfl⟩ := h
  rw [toNum_fromNum]

structure LegalQuestion (q : DnsQuestion) : Prop where
  name : LegalName q.name
  qtype : q.qtype ∈ Set.range QueryType.fromNum

namespace DnsQuestion

def wire (q : DnsQuestion) : Bytes := nameWire q.name ++ (octets16 q.qtype.toNum ++ octets16 1)

theorem emits_write {q : DnsQuestion} (h : WritableName q.name) : Emits q.write q.wire :=
  (emits_writeQname h).bind fun _ => (emits_writeU16 _).bind fun _ => emits_writeU16 _

/-- What is read of a question that was written: a known type is known again. -/
def reread (q : DnsQuestion) : DnsQuestion := ⟨q.name, QueryType.fromNum q.qtype.toNum⟩

theorem reread_of_legal {q : DnsQuestion} (h : LegalQuestion q) : q.reread = q := by
  rw [reread, QueryType.fromNum_toNum h.qtype]

theorem decodes_reread [Text.UnicodeTables] {q : DnsQuestion} (h : LegalName q.name) :
    Decodes DnsQuestion.read q.wire q.reread :=
  (decodes_readQname h).bind ((decodes_readU16 q.qtype.toNum).bind (decodes_readU16 1).bind_pure)

end DnsQuestion

/-! ### Records -/

/-- A record with a writer, made of legal names. -/
inductive LegalRecord : DnsRecord → Prop
  | A {domain : Text} {addr : Ipv4Addr} {ttl : UInt32} (hdomain : LegalName domain) :
      LegalRecord (.A domain addr ttl)
  | AAAA {domain : Text} {addr : Ipv6Addr} {ttl : UInt32} (hdomain : LegalName domain) :
      LegalRecord (.AAAA domain addr ttl)
  | CNAME {domain host : Text} {ttl : UInt32} (hdomain : LegalName domain)
      (hhost : LegalName host) : LegalRecord (.CNAME domain host ttl)

namespace DnsRecord

theorem readString_fixed (data : Text) (n : ℕ) : Fixed (readString data n) n := by
  induction n generalizing data with
  | zero => exact .pure _
  | succ n ih =>
    have h : Fixed (readString data (n + 1)) (1 + n) :=
      read_fixed.bind fun _ => ih _
    rwa [Nat.add_comm 1 n] at h

/-- Fuel for every octet up to `stop` is enough: more of it changes nothing. -/
theorem readTxt_fuel {stop fuel : ℕ} {c : BytePacketBuffer} (data : Text)
    (h : stop ≤ c.pos + fuel) : readTxt stop data (fuel + 1) c = readTxt stop data fuel c := by
  induction fuel generalizing c data with
  | zero =>
    have hstop : ¬ c.pos < stop := by omega
    change (if c.pos < stop then _ else _ : BufferM Text) c = _
    rw [if_neg hstop]
    rfl
  | succ fuel ih =>
    change (if c.pos < stop then _ else _ : BufferM Text) c =
      (if c.pos < stop then _ else _ : BufferM Text) c
    split_ifs
    · rw [bind_apply, bind_apply]
      cases hread : BytePacketBuffer.read c with
      | error e c' => rfl
      | ok len c₁ =>
        dsimp only
        rw [bind_apply, bind_apply]
        cases hstring : readString data len.toNat c₁ with
        | error e c' => rfl
        | ok data' c₂ =>
          apply ih
          rw [(readString_fixed _ _).advances _ _ _ hstring, read_fixed.advances _ _ _ hread]
          dsimp only
          omega
    · rfl

/-- The loop of a TXT record, without fuel. -/
theorem readTxt_loop {stop fuel : ℕ} {c : BytePacketBuffer} (data : Text)
    (h : stop ≤ c.pos + fuel) : readTxt stop data fuel c =
      if c.pos < stop then (do
        let len ← BytePacketBuffer.read
        let data ← readString data len.toNat
        readTxt stop data fuel : BufferM Text) c
      else .ok data c := by
  rw [← readTxt_fuel data h]
  change (if c.pos < stop then _ else _ : BufferM Text) c = _
  split_ifs <;> rfl

def fixedWire (domain : Text) (qtype : QueryType) (ttl : UInt32) : Bytes :=
  nameWire domain ++ (octets16 qtype.toNum ++ (octets16 1 ++ octets32 ttl))

def wire : DnsRecord → Bytes
  | .A domain addr ttl => fixedWire domain .A ttl ++ (octets16 4 ++ addr.toList)
  | .AAAA domain addr ttl => fixedWire domain .AAAA ttl ++ (octets16 16 ++ addr.toList)
  | .CNAME domain host ttl => fixedWire domain .CNAME ttl ++
      (octets16 (UInt16.ofNat (nameWire host).length) ++ nameWire host)
  | _ => []

theorem emits_writeFixed {domain : Text} (h : WritableName domain) (qtype : QueryType)
    (ttl : UInt32) : Emits (writeFixed domain qtype ttl) (fixedWire domain qtype ttl) :=
  (emits_writeQname h).bind fun _ => (emits_writeU16 _).bind fun _ => (emits_writeU16 _).bind
    fun _ => emits_writeU32 _

/-- The number of octets written is read off the cursor. -/
theorem emits_count (start : ℕ) :
    Emits (do let done ← get; pure (done.pos - start) : BufferM ℕ) [] :=
  Emits.bind_left (fun c => ⟨c, rfl⟩) fun _ => Emits.pure _

/-- A length written before what it counts: a placeholder first, then the patch over it. -/
theorem emits_patched {w : BufferM Unit} {enc : Bytes} (hw : Emits w enc) {k : BufferM ℕ}
    (hk : Emits k []) :
    Emits (do
      let before ← get
      writeU16 0
      w
      let after ← get
      let len := UInt16.ofNat (after.pos - before.pos - 2)
      patch before.pos (len >>> 8).toUInt8
      patch (before.pos + 1) (len &&& 0xFF).toUInt8
      k) (octets16 (UInt16.ofNat enc.length) ++ enc) := by
  intro c hc
  obtain ⟨_, c₂, h₂, hwritten, hpos, hle, htail⟩ := (emits_writeU16 0).bind (fun _ => hw) c hc
  have hsize : (octets16 0 ++ enc).length = enc.length + 2 := by simp [octets16]
  have hlen : c₂.pos - c.pos - 2 = enc.length := by omega
  let len := UInt16.ofNat enc.length
  let c₃ : BytePacketBuffer :=
    ⟨(c₂.buf.set c.pos (len >>> 8).toUInt8).set (c.pos + 1) (len &&& 0xFF).toUInt8, c₂.pos⟩
  have hwritten₃ : c₃.written = c.written ++ (octets16 len ++ enc) := by
    have hstart : c.written.length = c.pos := by simp [Cursor.written, hc]
    have hpatched : c₃.written =
        (c₂.written.set c.pos (len >>> 8).toUInt8).set (c.pos + 1) (len &&& 0xFF).toUInt8 := by
      simp [Cursor.written, c₃, List.take_set]
    rw [hpatched, hwritten]
    simp [octets16, hstart]
  have htail₃ : c₃.buf.drop c₃.pos = c.buf.drop c₃.pos := by
    rw [← htail, List.drop_set_of_lt (by simp only [c₃]; omega),
      List.drop_set_of_lt (by simp only [c₃]; omega)]
  obtain ⟨r, c', hk', hwritten', hpos', hle', htail'⟩ := hk c₃ (by simpa [c₃] using hle)
  rw [List.length_nil, Nat.add_zero] at hpos'
  refine ⟨r, c', ?_, ?_, ?_, hle', ?_⟩
  · rw [bind_of_ok (show (get : BufferM BytePacketBuffer) c = .ok c c from rfl), ← bind_assoc,
      bind_of_ok h₂, bind_of_ok (show (get : BufferM BytePacketBuffer) c₂ = .ok c₂ c₂ from rfl),
      hlen]
    exact hk'
  · rw [hwritten', hwritten₃, List.append_nil]
  · exact hpos'.trans hpos
  · rw [htail', hpos', htail₃]

theorem emits_address (octets : Bytes) (start : ℕ) :
    Emits (do forM octets writeU8; let done ← get; pure (done.pos - start) : BufferM ℕ)
      octets := by
  have h := (emits_forM_writeU8 octets).bind fun _ => emits_count start
  rwa [List.append_nil] at h

def writtenNames : DnsRecord → List Text
  | .A domain _ _ | .AAAA domain _ _ => [domain]
  | .CNAME domain host _ => [domain, host]
  | _ => []

theorem emits_write {r : DnsRecord} (h : ∀ name ∈ r.writtenNames, WritableName name) :
    Emits r.write r.wire := by
  have hget (c : BytePacketBuffer) : ∃ c', (get : BufferM BytePacketBuffer) c = .ok c' c := ⟨c, rfl⟩
  cases r with
  | A domain addr ttl | AAAA domain addr ttl =>
    exact Emits.bind_left hget fun start => (emits_writeFixed (h domain List.mem_cons_self) _ _).bind
      fun _ => (emits_writeU16 _).bind fun _ => emits_address _ start.pos
  | CNAME domain host ttl =>
    obtain ⟨hdomain, hhost, -⟩ : WritableName domain ∧ WritableName host ∧ True := by
      simpa [writtenNames] using h
    exact Emits.bind_left hget fun start => (emits_writeFixed hdomain _ _).bind fun _ =>
      emits_patched (emits_writeQname hhost) (emits_count start.pos)
  | UNKNOWN | MX | NS | TXT =>
    exact Emits.bind_left hget fun start => emits_count start.pos

theorem writable_of_legal {r : DnsRecord} (h : LegalRecord r) :
    ∀ name ∈ r.writtenNames, WritableName name := by
  cases h with
  | A hdomain | AAAA hdomain => simpa [writtenNames] using hdomain.writable
  | CNAME hdomain hhost => simpa [writtenNames] using ⟨hdomain.writable, hhost.writable⟩

theorem decodes_readOctets {n : ℕ} (v : List.Vector UInt8 n) :
    Decodes (readOctets n) v.toList v := by
  induction n with
  | zero =>
    rw [List.Vector.eq_nil v]
    exact Decodes.pure _
  | succ n ih =>
    obtain ⟨b, v, rfl⟩ := v.exists_eq_cons
    rw [List.Vector.toList_cons]
    exact (CursorM.Decodes.bind (Brdns.decodes_read b) (ih v).bind_pure)

/-- The address word and back. -/
theorem decodes_ipv4 (addr : Ipv4Addr) :
    ∃ word, Decodes readU32 addr.toList word ∧ ipv4OfWord word = addr := by
  obtain ⟨b₀, v, rfl⟩ := addr.exists_eq_cons
  obtain ⟨b₁, v, rfl⟩ := v.exists_eq_cons
  obtain ⟨b₂, v, rfl⟩ := v.exists_eq_cons
  obtain ⟨b₃, v, rfl⟩ := v.exists_eq_cons
  rw [List.Vector.eq_nil v]
  exact ⟨join32 b₀ b₁ b₂ b₃, decodes_join32 b₀ b₁ b₂ b₃,
    Subtype.ext (octets32_join32 b₀ b₁ b₂ b₃)⟩

variable [Text.UnicodeTables]

/-- The fields every record begins with, and the length of what follows. -/
theorem decodes_fixed {domain : Text} (hdomain : LegalName domain) (qtype : QueryType)
    (ttl : UInt32) (dataLen : UInt16)
    {body : Text → UInt16 → UInt32 → UInt16 → BufferM DnsRecord} {enc : Bytes} {r : DnsRecord}
    (hbody : Decodes (body domain qtype.toNum ttl dataLen) enc r) :
    Decodes (do
      let domain ← readQname []
      let qtypeNum ← readU16
      let _class ← readU16
      let ttl ← readU32
      let dataLen ← readU16
      body domain qtypeNum ttl dataLen) (fixedWire domain qtype ttl ++ (octets16 dataLen ++ enc))
      r := by
  simp only [fixedWire, List.append_assoc]
  exact (decodes_readQname hdomain).bind ((decodes_readU16 qtype.toNum).bind
    ((decodes_readU16 1).bind ((decodes_readU32 ttl).bind ((decodes_readU16 dataLen).bind hbody))))

theorem decodes_read {r : DnsRecord} (h : LegalRecord r) : Decodes DnsRecord.read r.wire r := by
  cases h with
  | @A domain addr ttl hdomain =>
    obtain ⟨word, hword, haddr⟩ := decodes_ipv4 addr
    have hbody := hword.bind_pure (g := fun word => DnsRecord.A domain (ipv4OfWord word) ttl)
    rw [haddr] at hbody
    exact decodes_fixed hdomain .A ttl 4 hbody
  | @AAAA domain addr ttl hdomain =>
    exact decodes_fixed hdomain .AAAA ttl 16 (decodes_readOctets addr).bind_pure
  | @CNAME domain host ttl hdomain hhost =>
    exact decodes_fixed hdomain .CNAME ttl _ (decodes_readQname hhost).bind_pure

end DnsRecord

/-! ### Messages -/

/-- A message that is read back as it was written, up to its counts. -/
structure LegalPacket (packet : DnsPacket) : Prop where
  opcode : packet.header.opcode.toNat < 16
  questions : ∀ q ∈ packet.questions, LegalQuestion q
  answers : ∀ r ∈ packet.answers, LegalRecord r
  authorities : ∀ r ∈ packet.authorities, LegalRecord r
  resources : ∀ r ∈ packet.resources, LegalRecord r
  questions_length : packet.questions.length < 65536
  answers_length : packet.answers.length < 65536
  authorities_length : packet.authorities.length < 65536
  resources_length : packet.resources.length < 65536

namespace DnsPacket

def wire (packet : DnsPacket) : Bytes :=
  packet.countedHeader.wire ++ (packet.questions.flatMap DnsQuestion.wire ++
    (packet.answers.flatMap DnsRecord.wire ++ (packet.authorities.flatMap DnsRecord.wire ++
      packet.resources.flatMap DnsRecord.wire)))

structure Writable (packet : DnsPacket) : Prop where
  questions : ∀ q ∈ packet.questions, WritableName q.name
  answers : ∀ r ∈ packet.answers, ∀ name ∈ r.writtenNames, WritableName name
  authorities : ∀ r ∈ packet.authorities, ∀ name ∈ r.writtenNames, WritableName name
  resources : ∀ r ∈ packet.resources, ∀ name ∈ r.writtenNames, WritableName name

theorem emits_writeRecords {recs : List DnsRecord}
    (h : ∀ r ∈ recs, ∀ name ∈ r.writtenNames, WritableName name) :
    Emits (writeRecords recs) (recs.flatMap DnsRecord.wire) := by
  refine Emits.forM recs fun r hr => ?_
  have hrec := (DnsRecord.emits_write (h r hr)).bind fun _ => Emits.pure ()
  rwa [List.append_nil] at hrec

theorem emits_write {packet : DnsPacket} (h : packet.Writable) :
    Emits packet.write packet.wire := by
  have hw := (DnsHeader.emits_write packet.countedHeader).bind fun _ =>
    (Emits.forM packet.questions fun q hq => DnsQuestion.emits_write (h.questions q hq)).bind
      fun _ => (emits_writeRecords h.answers).bind fun _ =>
        (emits_writeRecords h.authorities).bind fun _ => (emits_writeRecords h.resources).bind
          fun _ => Emits.pure { packet with header := packet.countedHeader }
  rwa [List.append_nil] at hw

theorem writable_of_legal {packet : DnsPacket} (h : LegalPacket packet) : packet.Writable where
  questions := fun q hq => (h.questions q hq).name.writable
  answers := fun r hr => DnsRecord.writable_of_legal (h.answers r hr)
  authorities := fun r hr => DnsRecord.writable_of_legal (h.authorities r hr)
  resources := fun r hr => DnsRecord.writable_of_legal (h.resources r hr)

structure ShortSections (packet : DnsPacket) : Prop where
  questions : packet.questions.length < 65536
  answers : packet.answers.length < 65536
  authorities : packet.authorities.length < 65536
  resources : packet.resources.length < 65536

/-- Then the counts are the lengths. -/
theorem counts {packet : DnsPacket} (h : packet.ShortSections) :
    packet.countedHeader.questions.toNat = packet.questions.length ∧
      packet.countedHeader.answers.toNat = packet.answers.length ∧
      packet.countedHeader.authoritativeEntries.toNat = packet.authorities.length ∧
      packet.countedHeader.resourceEntries.toNat = packet.resources.length := by
  have hcount {n : ℕ} (hn : n < 65536) : (UInt16.ofNat n).toNat = n := by
    rw [UInt16.toNat_ofNat']
    omega
  exact ⟨hcount h.questions, hcount h.answers, hcount h.authorities, hcount h.resources⟩

theorem short_of_legal {packet : DnsPacket} (h : LegalPacket packet) : packet.ShortSections :=
  ⟨h.questions_length, h.answers_length, h.authorities_length, h.resources_length⟩

variable [Text.UnicodeTables]

/-- What is read of a message whose records all have a writer. -/
theorem decodes_reread {packet : DnsPacket} (hshort : packet.ShortSections)
    (hquestions : ∀ q ∈ packet.questions, LegalName q.name)
    (hanswers : ∀ r ∈ packet.answers, LegalRecord r)
    (hauthorities : ∀ r ∈ packet.authorities, LegalRecord r)
    (hresources : ∀ r ∈ packet.resources, LegalRecord r) :
    Decodes fromBuffer packet.wire ⟨packet.countedHeader.reread,
      packet.questions.map DnsQuestion.reread, packet.answers, packet.authorities,
      packet.resources⟩ := by
  have hq := Decodes.readMany_map packet.questions fun q hq =>
    DnsQuestion.decodes_reread (hquestions q hq)
  have hrecords {recs : List DnsRecord} (hrecs : ∀ r ∈ recs, LegalRecord r) :=
    Decodes.readMany recs fun r hr => DnsRecord.decodes_read (hrecs r hr)
  have ha := hrecords hanswers
  have hn := hrecords hauthorities
  have hr := hrecords hresources
  obtain ⟨hqc, hac, hnc, hrc⟩ := counts hshort
  rw [← hqc] at hq
  rw [← hac] at ha
  rw [← hnc] at hn
  rw [← hrc] at hr
  exact (DnsHeader.decodes_reread _).bind (hq.bind (ha.bind (hn.bind hr.bind_pure)))

theorem decodes_fromBuffer {packet : DnsPacket} (h : LegalPacket packet) :
    Decodes fromBuffer packet.wire { packet with header := packet.countedHeader } := by
  have hread := decodes_reread (short_of_legal h) (fun q hq => (h.questions q hq).name)
    h.answers h.authorities h.resources
  have hheader : packet.countedHeader.reread = packet.countedHeader :=
    DnsHeader.ofFlags_flags h.opcode
  have hquestions : packet.questions.map DnsQuestion.reread = packet.questions := by
    conv_rhs => rw [← List.map_id packet.questions]
    exact List.map_congr_left fun q hq => DnsQuestion.reread_of_legal (h.questions q hq)
  rwa [hheader, hquestions] at hread

end DnsPacket

section

variable [Text.UnicodeTables]

/-- What is written of a legal message into a fresh buffer is read back as that message. -/
theorem write_fromBuffer {packet : DnsPacket} (h : LegalPacket packet) :
    ∃ r out, packet.write BytePacketBuffer.new = .ok r out ∧
      DnsPacket.fromBuffer (fromBytes (asBytes out)) =
        .ok { packet with header := packet.countedHeader } ⟨asBytes out, (asBytes out).length⟩ ∧
      packet.countedHeader.questions.toNat = packet.questions.length ∧
      packet.countedHeader.answers.toNat = packet.answers.length ∧
      packet.countedHeader.authoritativeEntries.toNat = packet.authorities.length ∧
      packet.countedHeader.resourceEntries.toNat = packet.resources.length := by
  obtain ⟨r, out, hwrite, hout⟩ := (DnsPacket.emits_write (DnsPacket.writable_of_legal h)).of_start (List.replicate 512 0)
  refine ⟨r, out, hwrite, ?_, DnsPacket.counts (DnsPacket.short_of_legal h)⟩
  rw [asBytes, hout]
  exact (DnsPacket.decodes_fromBuffer h).of_list

end

section

attribute [local instance] Text.asciiTables

/-- An answer to a question for `a.b`: an alias for `c`, and the address of `c`. -/
def aliasPacket : DnsPacket :=
  ⟨{ DnsHeader.new with id := 7, response := true, opcode := 2 }, [⟨['a', '.', 'b'], .A⟩],
    [.CNAME ['a', '.', 'b'] ['c'] 60, .A ['c'] Ipv4Addr.UNSPECIFIED 60], [], []⟩

theorem aliasPacket_legal : LegalPacket aliasPacket := by
  have hab : LegalName ['a', '.', 'b'] := by decide +kernel
  have hc : LegalName ['c'] := by decide +kernel
  refine ⟨by decide, ?_, ?_, by simp [aliasPacket], by simp [aliasPacket], by decide, by decide,
    by decide, by decide⟩
  · simp only [aliasPacket, List.forall_mem_cons]
    exact ⟨⟨hab, 1, rfl⟩, by simp⟩
  · simp only [aliasPacket, List.forall_mem_cons]
    exact ⟨.CNAME hab hc, .A hc, by simp⟩

theorem write_fromBuffer_alias : LegalPacket aliasPacket ∧
    ∃ r out, aliasPacket.write BytePacketBuffer.new = .ok r out ∧
      DnsPacket.fromBuffer (fromBytes (asBytes out)) =
        .ok { aliasPacket with header := aliasPacket.countedHeader }
          ⟨asBytes out, (asBytes out).length⟩ ∧
      aliasPacket.countedHeader.questions.toNat = aliasPacket.questions.length ∧
      aliasPacket.countedHeader.answers.toNat = aliasPacket.answers.length ∧
      aliasPacket.countedHeader.authoritativeEntries.toNat = aliasPacket.authorities.length ∧
      aliasPacket.countedHeader.resourceEntries.toNat = aliasPacket.resources.length :=
  ⟨aliasPacket_legal, write_fromBuffer aliasPacket_legal⟩

end

end Brdns
