import Brdns.Proofs.Wire
import Brdns.Spec.Blocking

/-! The answer to a blocked query: it is well formed, it answers that query, and its bytes are
read back in full. -/

namespace Brdns

open Lib CursorM BytePacketBuffer

theorem runBuffer_ok {α : Type} {p : BufferM α} {buf buf' : BytePacketBuffer} {v : α}
    (h : p buf = .ok v buf') : runBuffer p buf = .ok (v, buf') := by
  rw [runBuffer, h]

section

variable [Text.UnicodeTables]

/-! ### What was parsed -/

/-- What `read` makes of any octets can be written again, as far as names allow. -/
theorem question_read {c c' : BytePacketBuffer} {q : DnsQuestion}
    (h : DnsQuestion.read c = .ok q c') :
    (∀ d ∈ q.name, d.isUpper = false) ∧ q.qtype ∈ Set.range QueryType.fromNum := by
  obtain ⟨name, c₁, hname, h⟩ := bind_ok_iff.mp h
  obtain ⟨qtypeNum, c₂, -, h⟩ := bind_ok_iff.mp h
  obtain ⟨class', c₃, -, h⟩ := bind_ok_iff.mp h
  cases h
  exact ⟨readQname_not_upper hname, qtypeNum, rfl⟩

omit [Text.UnicodeTables] in
theorem header_read {c c' : BytePacketBuffer} {h : DnsHeader}
    (hread : DnsHeader.read c = .ok h c') : h.opcode.toNat < 16 := by
  have hmask : ∀ n : Fin 256, ((UInt8.ofNat n.val >>> 3) &&& 0x0F).toNat < 16 := by decide +kernel
  obtain ⟨id, c₁, -, hread⟩ := bind_ok_iff.mp hread
  obtain ⟨flags, c₂, -, hread⟩ := bind_ok_iff.mp hread
  obtain ⟨questions, c₃, -, hread⟩ := bind_ok_iff.mp hread
  obtain ⟨answers, c₄, -, hread⟩ := bind_ok_iff.mp hread
  obtain ⟨authoritative, c₅, -, hread⟩ := bind_ok_iff.mp hread
  obtain ⟨resource, c₆, -, hread⟩ := bind_ok_iff.mp hread
  cases hread
  simpa [DnsHeader.ofFlags] using hmask ⟨(flags >>> 8).toUInt8.toNat, UInt8.toNat_lt _⟩

/-- A parsed packet: its opcode, the number of its questions, and each of them. -/
theorem packet_read {c c' : BytePacketBuffer} {packet : DnsPacket}
    (h : DnsPacket.fromBuffer c = .ok packet c') :
    packet.header.opcode.toNat < 16 ∧
      packet.questions.length = packet.header.questions.toNat ∧
      ∀ q ∈ packet.questions,
        (∀ d ∈ q.name, d.isUpper = false) ∧ q.qtype ∈ Set.range QueryType.fromNum := by
  obtain ⟨header, c₁, hheader, h⟩ := bind_ok_iff.mp h
  obtain ⟨questions, c₂, hquestions, h⟩ := bind_ok_iff.mp h
  obtain ⟨answers, c₃, -, h⟩ := bind_ok_iff.mp h
  obtain ⟨authorities, c₄, -, h⟩ := bind_ok_iff.mp h
  obtain ⟨resources, c₅, -, h⟩ := bind_ok_iff.mp h
  cases h
  exact ⟨header_read hheader, readMany_length hquestions,
    readMany_forall (fun _ _ _ hq => question_read hq) hquestions⟩

/-! ### The answer -/

end

namespace Blocking

def modeRescode : BlockResponse → ResultCode
  | .Nxdomain => .NXDOMAIN
  | .Refused => .REFUSED
  | .Null | .Custom => .NOERROR

/-- The answer section a mode asks for, by the first question. -/
def modeAnswers (policy : BlockPolicy) (first : Option DnsQuestion) : List DnsRecord :=
  match policy.response, first with
  | .Null, some ⟨name, .A⟩ => [.A name Ipv4Addr.UNSPECIFIED 60]
  | .Null, some ⟨name, .AAAA⟩ => [.AAAA name Ipv6Addr.UNSPECIFIED 60]
  | .Custom, some ⟨name, .A⟩ => [.A name policy.ipv4 60]
  | .Custom, some ⟨name, .AAAA⟩ => [.AAAA name policy.ipv6 60]
  | _, _ => []

theorem blockPacket_eq (packet : DnsPacket) (policy : BlockPolicy) :
    blockPacket packet policy =
      ⟨{ packet.header with response := true, rescode := modeRescode policy.response },
        packet.questions, modeAnswers policy packet.questions.head?, [], []⟩ := by
  obtain ⟨response, ipv4, ipv6⟩ := policy
  cases response with
  | Nxdomain | Refused => rfl
  | Null | Custom =>
    cases hq : packet.questions.head? with
    | none => simp [blockPacket, modeAnswers, modeRescode, addressAnswers, hq]
    | some q =>
      obtain ⟨name, qtype⟩ := q
      cases qtype <;>
        simp [blockPacket, modeAnswers, modeRescode, addressAnswers, firstName, hq]

/-- Every answer is one address record, under the first question's name. -/
theorem modeAnswers_legal {policy : BlockPolicy} {first : Option DnsQuestion}
    (h : ∀ q ∈ first, LegalName q.name) : ∀ r ∈ modeAnswers policy first, LegalRecord r := by
  unfold modeAnswers
  split
  · simpa using LegalRecord.A (h _ rfl)
  · simpa using LegalRecord.AAAA (h _ rfl)
  · simpa using LegalRecord.A (h _ rfl)
  · simpa using LegalRecord.AAAA (h _ rfl)
  · simp

theorem modeAnswers_length (policy : BlockPolicy) (first : Option DnsQuestion) :
    (modeAnswers policy first).length < 65536 := by
  unfold modeAnswers
  split <;> simp

section

variable [Text.UnicodeTables]

theorem blockPacket_legal {c c' : BytePacketBuffer} {packet : DnsPacket} (policy : BlockPolicy)
    (hparse : DnsPacket.fromBuffer c = .ok packet c')
    (hnames : ∀ q ∈ packet.questions, AsciiName q.name) :
    LegalPacket (blockPacket packet policy) := by
  obtain ⟨hopcode, hlength, hquestions⟩ := packet_read hparse
  have hlegal : ∀ q ∈ packet.questions, LegalName q.name := fun q hq =>
    (hnames q hq).legal (hquestions q hq).1
  rw [blockPacket_eq]
  refine ⟨hopcode, fun q hq => ⟨hlegal q hq, (hquestions q hq).2⟩, ?_, by simp, by simp, ?_, ?_,
    by simp, by simp⟩
  · exact modeAnswers_legal fun q hq => hlegal q (List.mem_of_mem_head? hq)
  · exact hlength ▸ UInt16.toNat_lt _
  · exact modeAnswers_length policy _

/-- A blocked query is answered: the answer is parsed in full, as the query's header with the
mode's code, its questions, and the mode's answer to the first of them. -/
theorem synthesize_answers (policy : BlockPolicy) {raw : Bytes} {packet : DnsPacket}
    {c : BytePacketBuffer} (hparse : DnsPacket.fromBuffer (fromBytes raw) = .ok packet c)
    (hnames : ∀ q ∈ packet.questions, AsciiName q.name) :
    ∃ bytes reply, synthesize raw policy = .ok bytes ∧
      DnsPacket.fromBuffer (fromBytes bytes) = .ok reply ⟨bytes, bytes.length⟩ ∧
      reply.header = { packet.header with
        response := true
        rescode := modeRescode policy.response
        answers := UInt16.ofNat reply.answers.length
        authoritativeEntries := 0
        resourceEntries := 0 } ∧
      reply.questions = packet.questions ∧
      reply.answers = modeAnswers policy packet.questions.head? ∧
      reply.authorities = [] ∧ reply.resources = [] := by
  obtain ⟨r, out, hwrite, hread, -⟩ := write_fromBuffer (blockPacket_legal policy hparse hnames)
  have hcount : UInt16.ofNat packet.questions.length = packet.header.questions := by
    rw [(packet_read hparse).2.1, UInt16.ofNat_toNat]
  refine ⟨asBytes out, _, ?_, hread, ?_⟩
  · rw [synthesize, runBuffer_ok hparse]
    change (runBuffer (blockPacket packet policy).write BytePacketBuffer.new >>= fun written =>
      pure (asBytes written.2)) = _
    rw [runBuffer_ok hwrite]
    rfl
  · rw [blockPacket_eq]
    refine ⟨?_, rfl, rfl, rfl, rfl⟩
    simp [DnsPacket.countedHeader, hcount]

end

section

attribute [local instance] Text.asciiTables

/-- Questions for the address and the IPv6 address of `A.b`, the second through a pointer, and
an EDNS record. -/
def addressQuery : Bytes :=
  [0, 7, 1, 0, 0, 2, 0, 0, 0, 0, 0, 1, 1, 65, 1, 98, 0, 0, 1, 0, 1, 192, 12, 0, 28, 0, 1, 0, 0,
    41, 16, 0, 0, 0, 0, 0, 0, 0]

def addressPacket : DnsPacket :=
  ⟨DnsHeader.ofFlags 7 1 0 2 0 0 1, [⟨['a', '.', 'b'], .A⟩, ⟨['a', '.', 'b'], .AAAA⟩], [], [],
    [.UNKNOWN [] 41 0 0]⟩

def customPolicy : BlockPolicy := ⟨.Custom, ⟨[10, 0, 0, 1], rfl⟩, Ipv6Addr.UNSPECIFIED⟩

theorem synthesize_answers_address :
    ∃ bytes reply, synthesize addressQuery customPolicy = .ok bytes ∧
      DnsPacket.fromBuffer (fromBytes bytes) = .ok reply ⟨bytes, bytes.length⟩ ∧
      reply.header = { addressPacket.header with
        response := true
        rescode := modeRescode customPolicy.response
        answers := UInt16.ofNat reply.answers.length
        authoritativeEntries := 0
        resourceEntries := 0 } ∧
      reply.questions = addressPacket.questions ∧
      reply.answers = modeAnswers customPolicy addressPacket.questions.head? ∧
      reply.authorities = [] ∧ reply.resources = [] := by
  have hparse : DnsPacket.fromBuffer (fromBytes addressQuery) =
      .ok addressPacket ⟨addressQuery, 38⟩ := by decide +kernel
  exact synthesize_answers customPolicy hparse (by decide +kernel)

end

end Blocking

end Brdns
