import Brdns.Proofs.Messages

/-! Truncated messages. Every reader but `step` notices that octets are missing, and `step` only
comes last in a message when the last record is one of unknown type. -/

namespace Brdns

open Lib DnsName CursorM BytePacketBuffer Layout

/-! ### Positions only grow -/

theorem questionStart_mono (msg : Bytes) {i j : ℕ} (h : i ≤ j) :
    questionStart msg i ≤ questionStart msg j :=
  Function.monotone_iterate_of_id_le (le_questionEnd msg) h 12

theorem recordStart_mono (msg : Bytes) {i j : ℕ} (h : i ≤ j) :
    recordStart msg i ≤ recordStart msg j :=
  Function.monotone_iterate_of_id_le (le_recordEnd msg) h _

theorem questionEnd_start (msg : Bytes) (i : ℕ) :
    questionEnd msg (questionStart msg i) = questionStart msg (i + 1) :=
  (Function.iterate_succ_apply' _ _ _).symm

theorem recordEnd_start (msg : Bytes) (i : ℕ) :
    recordEnd msg (recordStart msg i) = recordStart msg (i + 1) :=
  (Function.iterate_succ_apply' _ _ _).symm

namespace Layout

def lastRecord (msg : Bytes) : Option ℕ :=
  match recordCount msg with
  | 0 => none
  | n + 1 => some (recordStart msg n)

/-- The last record leaves no octets unseen, or they end before the message does, or just with it
and then a name of the message uses its last octet. -/
def TailSeen (msg : Bytes) : Prop :=
  ∀ pos ∈ lastRecord msg, 0 < skipped msg pos → recordEnd msg pos < msg.length ∨
    recordEnd msg pos = msg.length ∧ ∃ start, NameStart msg start ∧
      Touches msg start (msg.length - 1)

end Layout

section

variable [Text.UnicodeTables]

namespace DnsPacket

variable {buf msg : Bytes} {packet : DnsPacket} {c : BytePacketBuffer}

/-- A message ends with its last record, or without records with its questions. -/
theorem ReadAt.last (h : ReadAt buf msg packet c) :
    lastRecord msg = none ∧ c.pos ≤ buf.length ∨
      ∃ n r, recordCount msg = n + 1 ∧ lastRecord msg = some (recordStart msg n) ∧
        packet.records.getLast? = some r ∧ DnsRecord.read ⟨buf, recordStart msg n⟩ = .ok r c ∧
        c.pos = recordEnd msg (recordStart msg n) := by
  rw [h.cursor, messageEnd]
  cases hn : recordCount msg with
  | zero => exact .inl ⟨by rw [lastRecord, hn], h.questions_le⟩
  | succ n =>
    have hi : n < packet.records.length := by
      rw [h.records_length, hn]
      exact Nat.lt_succ_self n
    refine .inr ⟨n, packet.records[n], rfl, by rw [lastRecord, hn], ?_, h.records n hi,
      (recordEnd_start msg n).symm⟩
    rw [List.getLast?_eq_getElem?, h.records_length, hn]
    exact List.getElem?_eq_getElem hi

/-- Everything but the octets the last record leaves unseen, and those its names use elsewhere,
stands before the last of them. -/
theorem carries_of_unseen {n : ℕ} (hn : recordCount msg = n + 1)
    (hend : recordEnd msg (recordStart msg n) = msg.length)
    (hskip : 0 < skipped msg (recordStart msg n))
    (hnames : ∀ pos, NameStart msg pos → ∀ i, Touches msg pos i → i < msg.length - 1) :
    Carries fromBuffer msg (msg.take (msg.length - 1)) 0 := by
  have hkeep : Keeps (fun i => i < msg.length - 1) msg (msg.take (msg.length - 1)) := by
    intro i b hi hb
    rwa [List.getElem?_take_of_lt hi]
  have hlast : readEnd msg (recordStart msg n) ≤ msg.length - 1 := by
    rw [recordEnd] at hend
    omega
  have hstart : recordStart msg n ≤ msg.length - 1 := (lt_readEnd msg _).le.trans hlast
  have hquestions : questionStart msg (questionCount msg) ≤ msg.length - 1 :=
    (recordStart_mono msg (Nat.zero_le n)).trans hstart
  refine fromBuffer_carries hkeep ?_ ?_ ?_ hnames
  · intro i hi
    have := questionStart_mono msg (Nat.zero_le (questionCount msg))
    exact hi.trans_le (this.trans hquestions)
  · intro j hj i hi
    rw [questionEnd_start] at hi
    exact hi.trans_le ((questionStart_mono msg hj).trans hquestions)
  · intro j hj i hi
    rcases Nat.lt_succ_iff_lt_or_eq.mp (hn ▸ hj : j < n + 1) with hlt | rfl
    · have hle : readEnd msg (recordStart msg j) ≤ recordStart msg (j + 1) := by
        rw [← recordEnd_start]
        exact Nat.le_add_right _ _
      exact hi.trans_le ((hle.trans (recordStart_mono msg hlt)).trans hstart)
    · exact hi.trans_le hlast

/-- Octets no name uses can be cut off inside what the last record leaves unseen, and no others. -/
theorem cut_rejected {k : ℕ} {packet' : DnsPacket} {c' : BytePacketBuffer}
    (h : fromBuffer (fromBytes msg) = .ok packet c) (hend : c.pos = msg.length)
    (hk : k < msg.length) (hcut : fromBuffer (fromBytes (msg.take k)) = .ok packet' c') :
    ∃ pos ∈ lastRecord msg, 0 < skipped msg pos ∧ c.pos = recordEnd msg pos ∧
      ∀ start, NameStart msg start → ¬ Touches msg start (msg.length - 1) := by
  have hlen : (msg.take k).length = k := by
    rw [List.length_take]
    omega
  have hkeep : CutOf (msg.take k) msg := by
    have htake : CutOf (msg.take k) (msg.take msg.length) := cutOf_take hk.le
    rwa [List.take_length] at htake
  -- the longer message is read as the shorter one is
  obtain ⟨hbuf, hlong⟩ := fromBuffer_carries hkeep (fun _ _ => trivial) (fun _ _ _ _ => trivial)
    (fun _ _ _ _ => trivial) (fun _ _ _ _ => trivial) packet' c' hcut
  obtain ⟨rfl, hpos⟩ : packet = packet' ∧ c = ⟨msg, c'.pos⟩ := by
    have := h.symm.trans hlong
    cases this
    exact ⟨rfl, rfl⟩
  have hshort : ReadAt (msg.take k) msg packet c' := read_at hkeep hcut
  have hsame : c.pos = c'.pos := by rw [hpos]
  rcases hshort.last with ⟨-, hle⟩ | ⟨n, r, hn, hlast, hr, hread, hpos'⟩
  · omega
  · have hrecord : DnsRecord.ReadAt (msg.take k) (recordStart msg n) r c' := DnsRecord.read_at hread
    have hover : c'.pos = readEnd (msg.take k) (recordStart msg n) +
        skipped (msg.take k) (recordStart msg n) := by rw [hrecord.cursor, recordEnd]
    have hinside := hrecord.inside
    have hskip : 0 < r.unread := by
      rw [hrecord.unread]
      omega
    rcases (read_at (fun _ _ _ hb => hb) h : ReadAt msg msg packet c).last with
      ⟨hnone, -⟩ | ⟨n', r', -, hlast', hr', hread', -⟩
    · rw [hlast] at hnone
      cases hnone
    · obtain rfl := Option.some.inj (hr.symm.trans hr')
      rw [← Option.some.inj (hlast.symm.trans hlast')] at hread'
      rw [(DnsRecord.read_at hread').unread] at hskip
      refine ⟨recordStart msg n, hlast, hskip, hsame.trans hpos', fun start hstart htouch => ?_⟩
      obtain ⟨name, -, jumps, labels, stop, hname, -⟩ := (hshort.names hkeep).2 start hstart
      have := hname.touches_lt (htouch.of_prefix hname fun i b => hkeep i b trivial)
      omega

/-- Without its last octet, unseen and used by no name, a message is accepted as before. -/
theorem accepted_of_unseen (h : fromBuffer (fromBytes msg) = .ok packet c) {n : ℕ}
    (hn : recordCount msg = n + 1) (hend : recordEnd msg (recordStart msg n) = msg.length)
    (hskip : 0 < skipped msg (recordStart msg n))
    (hno : ∀ start, NameStart msg start → ¬ Touches msg start (msg.length - 1)) :
    0 < msg.length ∧ ∃ c', fromBuffer (fromBytes (msg.take (msg.length - 1))) = .ok packet c' := by
  have hread : ReadAt msg msg packet c := read_at (fun _ _ _ hb => hb) h
  have hnames : ∀ start, NameStart msg start → ∀ i, Touches msg start i →
      i < msg.length - 1 := by
    intro start hstart i hi
    obtain ⟨name, -, jumps, labels, stop, hname, -⟩ :=
      (hread.names fun _ _ _ hb => hb).2 start hstart
    have hlt := hname.touches_lt hi
    have hne : i ≠ msg.length - 1 := by
      rintro rfl
      exact hno start hstart hi
    omega
  have hpos : 0 < msg.length := by
    have := lt_readEnd msg (recordStart msg n)
    rw [recordEnd] at hend
    omega
  exact ⟨hpos, _, (carries_of_unseen hn hend hskip hnames packet c h).2⟩

/-- Where the tail is seen the cursor stays inside. -/
theorem pos_le_of_tailSeen (h : fromBuffer (fromBytes msg) = .ok packet c)
    (htail : TailSeen msg) : c.pos ≤ msg.length := by
  have hread : ReadAt msg msg packet c := read_at (fun _ _ _ hb => hb) h
  rcases hread.last with ⟨-, hle⟩ | ⟨n, r, -, hlast, -, hrecord, hend⟩
  · exact hle
  · have hinside := (DnsRecord.read_at hrecord).inside
    rcases Nat.eq_zero_or_pos (skipped msg (recordStart msg n)) with hzero | hskip
    · rw [hend, recordEnd, hzero]
      exact hinside
    · rcases htail _ hlast hskip with hlt | ⟨heq, -⟩
      · exact hend ▸ hlt.le
      · exact hend ▸ heq.le

/-- Truncation is noticed exactly when the tail of the message is seen: then the cursor stays
inside, and where it ends at the end of the message no proper prefix is accepted. -/
theorem truncation_iff (h : fromBuffer (fromBytes msg) = .ok packet c) :
    (c.pos ≤ msg.length ∧ (c.pos = msg.length → ∀ k < msg.length, ∀ packet' c',
      fromBuffer (fromBytes (msg.take k)) ≠ .ok packet' c')) ↔ TailSeen msg := by
  have hread : ReadAt msg msg packet c := read_at (fun _ _ _ hb => hb) h
  constructor
  · rintro ⟨hle, hcut⟩ pos hpos hskip
    rcases hread.last with ⟨hnone, -⟩ | ⟨n, r, hn, hlast, -, -, hend⟩
    · rw [hnone] at hpos
      cases hpos
    obtain rfl := Option.some.inj (hlast.symm.trans hpos)
    rw [hend] at hle hcut
    rcases hle.lt_or_eq with hlt | heq
    · exact .inl hlt
    refine .inr ⟨heq, ?_⟩
    by_contra hno
    obtain ⟨hpos, c', haccept⟩ := accepted_of_unseen h hn heq hskip
      fun start hstart htouch => hno ⟨start, hstart, htouch⟩
    exact hcut heq (msg.length - 1) (by omega) packet c' haccept
  · intro htail
    refine ⟨pos_le_of_tailSeen h htail, fun hend k hk packet' c' hcut => ?_⟩
    obtain ⟨pos, hpos, hskip, hposEnd, hnone⟩ := cut_rejected h hend hk hcut
    rcases htail pos hpos hskip with hlt | ⟨-, start, hstart, htouch⟩
    · omega
    · exact hnone start hstart htouch

end DnsPacket

end

section

attribute [local instance] Text.asciiTables

def shortQuery : Bytes := [0, 7, 1, 0, 0, 1, 0, 0, 0, 0, 0, 0, 1, 97, 0, 0, 1, 0, 1]

theorem truncation_iff_short :
    (shortQuery.length ≤ shortQuery.length ∧ (shortQuery.length = shortQuery.length →
      ∀ k < shortQuery.length, ∀ packet' c',
        DnsPacket.fromBuffer (fromBytes (shortQuery.take k)) ≠ .ok packet' c')) ↔
      TailSeen shortQuery := by
  have hparse : DnsPacket.fromBuffer (fromBytes shortQuery) =
      .ok ⟨DnsHeader.ofFlags 7 1 0 1 0 0 0, [⟨['a'], .A⟩], [], [], []⟩
        ⟨shortQuery, shortQuery.length⟩ := by decide +kernel
  exact DnsPacket.truncation_iff hparse

/-- An EDNS record with one octet of data, and nothing else. -/
def ednsMessage : Bytes :=
  [0, 7, 1, 0, 0, 0, 0, 0, 0, 0, 0, 1, 0, 0, 41, 16, 0, 0, 0, 0, 0, 0, 1, 9]

def ednsPacket : DnsPacket :=
  ⟨DnsHeader.ofFlags 7 1 0 0 0 0 1, [], [], [], [.UNKNOWN [] 41 1 0]⟩

/-- Without its last octet the message is accepted as before, and the cursor lies beyond its end. -/
theorem truncated_accepted :
    DnsPacket.fromBuffer (fromBytes ednsMessage) = .ok ednsPacket ⟨ednsMessage, 24⟩ ∧
      ednsMessage.length = 24 ∧
      DnsPacket.fromBuffer (fromBytes (ednsMessage.take 23)) =
        .ok ednsPacket ⟨ednsMessage.take 23, 24⟩ ∧
      (ednsMessage.take 23).length = 23 := by
  refine ⟨by decide +kernel, rfl, by decide +kernel, rfl⟩

end

end Brdns
