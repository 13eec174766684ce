import Brdns.Proofs.Wire

/-! Where the parts of a message stand, read off its octets alone. Every successful read ends
where the layout says, and goes the same way over every buffer that keeps the octets it uses. -/

namespace Brdns

open Lib DnsName CursorM BytePacketBuffer

/-! ### The layout -/

namespace Layout

def octet (msg : Bytes) (i : ℕ) : ℕ := (msg[i]?.getD 0).toNat

def word16 (msg : Bytes) (i : ℕ) : ℕ := octet msg i * 256 + octet msg (i + 1)

section

variable (msg : Bytes) (pos : ℕ)

def recordType : QueryType := QueryType.fromNum (UInt16.ofNat (word16 msg (nameEnd msg pos)))

def rdlength : ℕ := word16 msg (nameEnd msg pos + 8)

def rdataStart : ℕ := nameEnd msg pos + 10

/-- Where a row of strings ends that goes on until `stop` is reached or passed. -/
def stringsEnd (stop pos : ℕ) : ℕ :=
  if pos < stop then stringsEnd stop (pos + 1 + octet msg pos) else pos
  termination_by stop - pos

/-- Where the content of a record ends as its type says, from its start and declared length: of an
unknown type no octet is looked at. -/
def contentEnd (qtype : QueryType) (start len : ℕ) : ℕ :=
  match qtype with
  | .A => start + 4
  | .AAAA => start + 16
  | .CNAME | .NS => nameEnd msg start
  | .MX => nameEnd msg (start + 2)
  | .TXT => stringsEnd msg (start + len) start
  | .UNKNOWN _ => start

/-- Where the octets of a record end that are looked at. -/
def readEnd : ℕ := contentEnd msg (recordType msg pos) (rdataStart msg pos) (rdlength msg pos)

def skippedBy (qtype : QueryType) (len : ℕ) : ℕ :=
  match qtype with
  | .UNKNOWN _ => len
  | _ => 0

def skipped : ℕ := skippedBy (recordType msg pos) (rdlength msg pos)

def recordEnd : ℕ := readEnd msg pos + skipped msg pos

def hostStarts (qtype : QueryType) (start : ℕ) : List ℕ :=
  match qtype with
  | .CNAME | .NS => [start]
  | .MX => [start + 2]
  | _ => []

def recordNames : List ℕ := pos :: hostStarts (recordType msg pos) (rdataStart msg pos)

def questionEnd : ℕ := nameEnd msg pos + 4

end

theorem le_questionEnd (msg : Bytes) (pos : ℕ) : pos ≤ questionEnd msg pos :=
  (le_nameEnd msg pos).trans (Nat.le_add_right _ 4)

theorem le_stringsEnd (msg : Bytes) (stop pos : ℕ) : pos ≤ stringsEnd msg stop pos := by
  fun_induction stringsEnd msg stop pos with
  | case1 pos hlt ih => omega
  | case2 pos hge => exact le_rfl

theorem le_contentEnd (msg : Bytes) (qtype : QueryType) (start len : ℕ) :
    start ≤ contentEnd msg qtype start len := by
  cases qtype with
  | A | AAAA => exact Nat.le_add_right _ _
  | CNAME | NS => exact le_nameEnd msg start
  | MX => exact (Nat.le_add_right _ 2).trans (le_nameEnd msg (start + 2))
  | TXT => exact le_stringsEnd msg (start + len) start
  | UNKNOWN num => exact le_rfl

theorem lt_readEnd (msg : Bytes) (pos : ℕ) : pos < readEnd msg pos := by
  have hstart : pos < rdataStart msg pos :=
    Nat.lt_of_le_of_lt (le_nameEnd msg pos) (Nat.lt_add_of_pos_right (by decide))
  exact hstart.trans_le (le_contentEnd _ _ _ _)

theorem le_recordEnd (msg : Bytes) (pos : ℕ) : pos ≤ recordEnd msg pos :=
  (lt_readEnd msg pos).le.trans (Nat.le_add_right _ _)

section

variable (msg : Bytes)

def questionCount : ℕ := word16 msg 4

def recordCount : ℕ := word16 msg 6 + word16 msg 8 + word16 msg 10

def questionStart (i : ℕ) : ℕ := (questionEnd msg)^[i] 12

def recordStart (i : ℕ) : ℕ := (recordEnd msg)^[i] (questionStart msg (questionCount msg))

def messageEnd : ℕ := recordStart msg (recordCount msg)

def NameStart (pos : ℕ) : Prop :=
  (∃ i < questionCount msg, pos = questionStart msg i) ∨
    ∃ i < recordCount msg, pos ∈ recordNames msg (recordStart msg i)

end

end Layout

open Layout

/-! ### Words in place -/

theorem readU16_value {c c' : BytePacketBuffer} {v : UInt16} (h : readU16 c = .ok v c') :
    v.toNat = word16 c.buf c.pos := by
  obtain ⟨hi, c₁, h₁, h⟩ := bind_ok_iff.mp h
  obtain ⟨lo, c₂, h₂, h⟩ := bind_ok_iff.mp h
  cases h
  obtain ⟨hhi, rfl⟩ := read_ok_iff.mp h₁
  obtain ⟨hlo, rfl⟩ := read_ok_iff.mp h₂
  rw [Word.toNat_join16, word16, octet, octet, hhi, hlo]
  rfl

theorem readOctets_fixed (n : ℕ) : Fixed (DnsRecord.readOctets n) n := by
  induction n with
  | zero => exact .pure _
  | succ n ih =>
    have h : Fixed (DnsRecord.readOctets (n + 1)) (1 + (n + 0)) :=
      read_fixed.bind fun _ => ih.bind fun _ => .pure _
    rwa [Nat.add_comm 1] at h

variable [Text.UnicodeTables]

/-! ### Names -/

def NameAt (msg : Bytes) (name : Text) (pos : ℕ) : Prop :=
  ∃ jumps labels stop, Unfolds msg pos jumps labels stop ∧ jumps ≤ maxJumps ∧
    name = Text.join '.' (labels.map labelText)

theorem readQname_ok {msg : Bytes} {pos : ℕ} {name : Text} {c : BytePacketBuffer}
    (h : readQname [] ⟨msg, pos⟩ = .ok name c) :
    c = ⟨msg, nameEnd msg pos⟩ ∧ pos < nameEnd msg pos ∧ nameEnd msg pos ≤ msg.length ∧
      NameAt msg name pos := by
  obtain ⟨jumps, labels, stop, hname, hle, rfl, rfl⟩ := readQname_ok_iff.mp h
  rw [hname.nameEnd_eq]
  exact ⟨rfl, hname.stop_le.1, hname.stop_le.2, jumps, labels, stop, hname, hle, rfl⟩

theorem readQname_carries {K : ℕ → Prop} {buf buf' : Bytes} {pos : ℕ}
    (hkeep : Keeps K buf buf') (hK : ∀ i, Touches buf pos i → K i) :
    Carries (readQname []) buf buf' pos := by
  intro name c h
  obtain ⟨jumps, labels, stop, hname, hle, rfl, rfl⟩ := readQname_ok_iff.mp h
  have hname' := hname.kept fun i b hi => hkeep i b (hK i hi)
  exact ⟨rfl, readQname_ok_iff.mpr ⟨jumps, labels, stop, hname', hle, rfl, rfl⟩⟩

/-- What follows a name starts where the name ends in place. -/
theorem readQname_carries_bind {β : Type} {f : Text → BufferM β} {K : ℕ → Prop}
    {buf buf' : Bytes} {pos : ℕ} (hkeep : Keeps K buf buf') (hK : ∀ i, Touches buf pos i → K i)
    (hf : ∀ name, Carries (f name) buf buf' (nameEnd buf pos)) :
    Carries (readQname [] >>= f) buf buf' pos := by
  apply (readQname_carries hkeep hK).bind
  intro name pos' h
  obtain rfl := (Cursor.mk.inj (readQname_ok h).1).2
  exact hf name

/-! ### Strings -/

omit [Text.UnicodeTables] in
theorem readTxt_succ (stop fuel pos : ℕ) (msg : Bytes) (data : Text) :
    DnsRecord.readTxt stop data (fuel + 1) ⟨msg, pos⟩ =
      if pos < stop then (do
        let len ← BytePacketBuffer.read
        let data ← DnsRecord.readString data len.toNat
        DnsRecord.readTxt stop data fuel : BufferM Text) ⟨msg, pos⟩
      else .ok data ⟨msg, pos⟩ := by
  change (if pos < stop then _ else _ : BufferM Text) _ = _
  split_ifs <;> rfl

omit [Text.UnicodeTables] in
theorem octet_eq {msg : Bytes} {pos : ℕ} {b : UInt8} (h : msg[pos]? = some b) :
    octet msg pos = b.toNat := by
  rw [octet, h]
  rfl

omit [Text.UnicodeTables] in
/-- The loop of a TXT record ends after whole strings, and has seen all their octets. -/
theorem readTxt_ok {stop fuel pos : ℕ} {msg : Bytes} {data data' : Text} {c : BytePacketBuffer}
    (hfuel : stop ≤ pos + fuel) (h : DnsRecord.readTxt stop data fuel ⟨msg, pos⟩ = .ok data' c) :
    c = ⟨msg, stringsEnd msg stop pos⟩ ∧
      (pos ≤ msg.length → stringsEnd msg stop pos ≤ msg.length) := by
  induction fuel generalizing pos data with
  | zero =>
    rw [stringsEnd, if_neg (by omega)]
    cases h
    exact ⟨rfl, id⟩
  | succ fuel ih =>
    rw [readTxt_succ] at h
    rw [stringsEnd]
    split_ifs at h ⊢ with hlt
    · obtain ⟨len, c₁, h₁, h⟩ := bind_ok_iff.mp h
      obtain ⟨data₁, c₂, h₂, h⟩ := bind_ok_iff.mp h
      obtain ⟨hlen, rfl⟩ := read_ok_iff.mp h₁
      have hstart := (List.getElem?_eq_some_iff.mp hlen).1
      have hin := (DnsRecord.readString_fixed data len.toNat).inside _ _ _ h₂
      obtain rfl := (DnsRecord.readString_fixed data len.toNat).advances _ _ _ h₂
      rw [octet_eq hlen]
      dsimp only at hin hstart h
      obtain ⟨rfl, hbound⟩ := ih (by omega) h
      refine ⟨rfl, fun _ => hbound ?_⟩
      -- the last octet of the string was read
      rcases Nat.eq_zero_or_pos len.toNat with h0 | hpos
      · omega
      · have := hin (len.toNat - 1) (by omega)
        omega
    · cases h
      exact ⟨rfl, id⟩

omit [Text.UnicodeTables] in
theorem readTxt_carries {K : ℕ → Prop} {stop fuel pos : ℕ} {buf buf' : Bytes} (data : Text)
    (hkeep : Keeps K buf buf') (hK : ∀ i < stringsEnd buf stop pos, K i) :
    Carries (DnsRecord.readTxt stop data fuel) buf buf' pos := by
  induction fuel generalizing pos data with
  | zero => exact .pure data
  | succ fuel ih =>
    intro data' c h
    rw [readTxt_succ] at h ⊢
    rw [stringsEnd] at hK
    split_ifs at h hK ⊢ with hlt
    · have hle := le_stringsEnd buf stop (pos + 1 + octet buf pos)
      refine read_fixed.carries_bind hkeep (fun i hi => hK _ (by omega)) (fun len c₁ h₁ => ?_)
        data' c h
      rw [octet_eq (read_ok_iff.mp h₁).1] at hK hle
      refine (DnsRecord.readString_fixed data len.toNat).carries_bind hkeep (fun i hi => ?_)
        fun data₁ _ _ => ih data₁ hK
      exact hK _ (by omega)
    · cases h
      exact ⟨rfl, rfl⟩

/-! ### Records -/

namespace DnsRecord

omit [Text.UnicodeTables] in
def names : DnsRecord → List Text
  | .UNKNOWN domain _ _ _ | .A domain _ _ | .AAAA domain _ _ | .TXT domain _ _ => [domain]
  | .CNAME domain host _ | .NS domain host _ | .MX domain _ host _ => [domain, host]

/-- The length of what a record of unknown type left unread. -/
def unread : DnsRecord → ℕ
  | .UNKNOWN _ _ dataLen _ => dataLen.toNat
  | _ => 0

/-- What `read` does after the length field. -/
def readContent (domain : Text) (qtypeNum : UInt16) (ttl : UInt32) (dataLen : UInt16) :
    BufferM DnsRecord :=
  match QueryType.fromNum qtypeNum with
  | .A => do
    let rawAddr ← readU32
    pure (.A domain (ipv4OfWord rawAddr) ttl)
  | .AAAA => do
    let octets ← readOctets 16
    pure (.AAAA domain octets ttl)
  | .CNAME => do
    let host ← readQname []
    pure (.CNAME domain host ttl)
  | .NS => do
    let host ← readQname []
    pure (.NS domain host ttl)
  | .MX => do
    let priority ← readU16
    let host ← readQname []
    pure (.MX domain priority host ttl)
  | .TXT => do
    let self ← get
    let data ← readTxt (self.pos + dataLen.toNat) [] dataLen.toNat
    pure (.TXT domain data ttl)
  | .UNKNOWN _ => do
    step dataLen.toNat
    pure (.UNKNOWN domain qtypeNum dataLen ttl)

theorem read_eq : DnsRecord.read = (do
    let domain ← readQname []
    let qtypeNum ← readU16
    let _class ← readU16
    let ttl ← readU32
    let dataLen ← readU16
    readContent domain qtypeNum ttl dataLen) := rfl

omit [Text.UnicodeTables] in
/-- The cursor at the start of the strings is only used for where they end. -/
theorem read_strings (len start : ℕ) (msg : Bytes) (f : Text → BufferM DnsRecord) :
    (do
      let self ← get
      let data ← readTxt (self.pos + len) [] len
      f data : BufferM DnsRecord) ⟨msg, start⟩ = (do
        let data ← readTxt (start + len) [] len
        f data : BufferM DnsRecord) ⟨msg, start⟩ := rfl

variable {msg buf buf' : Bytes} {pos start : ℕ} {domain : Text} {qtypeNum dataLen : UInt16}
  {ttl : UInt32} {r : DnsRecord} {c : BytePacketBuffer}

/-- The content of a record ends where its type says, after what is skipped. -/
theorem readContent_ok
    (h : readContent domain qtypeNum ttl dataLen ⟨msg, start⟩ = .ok r c)
    (hstart : start ≤ msg.length) :
    c = ⟨msg, contentEnd msg (QueryType.fromNum qtypeNum) start dataLen.toNat +
        skippedBy (QueryType.fromNum qtypeNum) dataLen.toNat⟩ ∧
      contentEnd msg (QueryType.fromNum qtypeNum) start dataLen.toNat ≤ msg.length ∧
      r.unread = skippedBy (QueryType.fromNum qtypeNum) dataLen.toNat ∧
      ∃ hosts, r.names = domain :: hosts ∧
        List.Forall₂ (NameAt msg) hosts (hostStarts (QueryType.fromNum qtypeNum) start) := by
  unfold readContent at h
  cases hqtype : QueryType.fromNum qtypeNum with
  | A =>
    simp only [hqtype] at h
    obtain ⟨raw, c₁, h₁, h⟩ := bind_ok_iff.mp h
    cases h
    have := readU32_fixed.inside _ _ _ h₁ 3 (by omega)
    obtain rfl := readU32_fixed.advances _ _ _ h₁
    exact ⟨rfl, this, rfl, [], rfl, .nil⟩
  | AAAA =>
    simp only [hqtype] at h
    obtain ⟨octets, c₁, h₁, h⟩ := bind_ok_iff.mp h
    cases h
    have := (readOctets_fixed 16).inside _ _ _ h₁ 15 (by omega)
    obtain rfl := (readOctets_fixed 16).advances _ _ _ h₁
    exact ⟨rfl, this, rfl, [], rfl, .nil⟩
  | CNAME | NS =>
    simp only [hqtype] at h
    obtain ⟨host, c₁, h₁, h⟩ := bind_ok_iff.mp h
    cases h
    obtain ⟨rfl, -, hle, hname⟩ := readQname_ok h₁
    exact ⟨rfl, hle, rfl, [host], rfl, .cons hname .nil⟩
  | MX =>
    simp only [hqtype] at h
    obtain ⟨priority, c₁, h₁, h⟩ := bind_ok_iff.mp h
    obtain ⟨host, c₂, h₂, h⟩ := bind_ok_iff.mp h
    cases h
    obtain rfl := readU16_fixed.advances _ _ _ h₁
    obtain ⟨rfl, -, hle, hname⟩ := readQname_ok h₂
    exact ⟨rfl, hle, rfl, [host], rfl, .cons hname .nil⟩
  | TXT =>
    simp only [hqtype] at h
    obtain ⟨data, c₁, h₁, h⟩ := bind_ok_iff.mp ((read_strings _ _ _ _).symm.trans h)
    cases h
    obtain ⟨rfl, hle⟩ := readTxt_ok le_rfl h₁
    exact ⟨rfl, hle hstart, rfl, [], rfl, .nil⟩
  | UNKNOWN num =>
    simp only [hqtype] at h
    cases h
    exact ⟨rfl, hstart, rfl, [], rfl, .nil⟩

theorem readContent_carries {K : ℕ → Prop} (hkeep : Keeps K buf buf')
    (hK : ∀ i < contentEnd buf (QueryType.fromNum qtypeNum) start dataLen.toNat, K i)
    (hhosts : ∀ p ∈ hostStarts (QueryType.fromNum qtypeNum) start, ∀ i, Touches buf p i → K i) :
    Carries (readContent domain qtypeNum ttl dataLen) buf buf' start := by
  unfold readContent
  cases hqtype : QueryType.fromNum qtypeNum with
  | A =>
    simp only [hqtype, contentEnd] at hK ⊢
    exact (readU32_fixed.carries K buf buf' start hkeep fun i hi => hK _ (by omega)).bind
      fun _ _ _ => .pure _
  | AAAA =>
    simp only [hqtype, contentEnd] at hK ⊢
    exact ((readOctets_fixed 16).carries K buf buf' start hkeep fun i hi => hK _ (by omega)).bind
      fun _ _ _ => .pure _
  | CNAME | NS =>
    simp only [hqtype, hostStarts] at hhosts ⊢
    exact (readQname_carries hkeep (hhosts start List.mem_cons_self)).bind fun _ _ _ => .pure _
  | MX =>
    simp only [hqtype, contentEnd, hostStarts] at hK hhosts ⊢
    have hle := le_nameEnd buf (start + 2)
    refine readU16_fixed.carries_bind hkeep (fun i hi => hK _ (by omega)) fun priority _ _ => ?_
    exact (readQname_carries hkeep (hhosts _ List.mem_cons_self)).bind fun _ _ _ => .pure _
  | TXT =>
    simp only [hqtype, contentEnd] at hK ⊢
    intro r c h
    rw [read_strings] at h ⊢
    exact ((readTxt_carries [] hkeep hK).bind fun _ _ _ => .pure _) r c h
  | UNKNOWN num =>
    rintro r c ⟨⟩
    exact ⟨rfl, rfl⟩

omit [Text.UnicodeTables] in
theorem recordType_eq {c : BytePacketBuffer} {num : UInt16}
    (h : readU16 ⟨msg, nameEnd msg pos⟩ = .ok num c) :
    QueryType.fromNum num = recordType msg pos := by
  rw [recordType, ← readU16_value h, UInt16.ofNat_toNat]

omit [Text.UnicodeTables] in
theorem rdlength_eq {c : BytePacketBuffer} {len : UInt16}
    (h : readU16 ⟨msg, nameEnd msg pos + 2 + 2 + 4⟩ = .ok len c) :
    len.toNat = rdlength msg pos := by
  rw [rdlength, readU16_value h]

structure ReadAt (msg : Bytes) (pos : ℕ) (r : DnsRecord) (c : BytePacketBuffer) : Prop where
  cursor : c = ⟨msg, recordEnd msg pos⟩
  start : pos < msg.length
  fixed : rdataStart msg pos ≤ msg.length
  inside : readEnd msg pos ≤ msg.length
  unread : r.unread = skipped msg pos
  names : List.Forall₂ (NameAt msg) r.names (recordNames msg pos)

theorem read_at (h : DnsRecord.read ⟨msg, pos⟩ = .ok r c) : ReadAt msg pos r c := by
  rw [read_eq] at h
  obtain ⟨domain, c₁, h₁, h⟩ := bind_ok_iff.mp h
  obtain ⟨qtypeNum, c₂, h₂, h⟩ := bind_ok_iff.mp h
  obtain ⟨class', c₃, h₃, h⟩ := bind_ok_iff.mp h
  obtain ⟨ttl, c₄, h₄, h⟩ := bind_ok_iff.mp h
  obtain ⟨dataLen, c₅, h₅, h⟩ := bind_ok_iff.mp h
  obtain ⟨rfl, hpos, hle, hname⟩ := readQname_ok h₁
  have htype : QueryType.fromNum qtypeNum = recordType msg pos := recordType_eq h₂
  obtain rfl := readU16_fixed.advances _ _ _ h₂
  obtain rfl := readU16_fixed.advances _ _ _ h₃
  obtain rfl := readU32_fixed.advances _ _ _ h₄
  have hlen := rdlength_eq h₅
  have hfixed : rdataStart msg pos ≤ msg.length := by
    have hlast := readU16_fixed.inside _ _ _ h₅ 1 (by omega)
    rw [rdataStart]
    dsimp only at hlast
    omega
  obtain rfl := readU16_fixed.advances _ _ _ h₅
  obtain ⟨rfl, hinside, hunread, hosts, hnames, hhosts⟩ := readContent_ok h hfixed
  rw [htype, hlen] at hinside hunread ⊢
  rw [htype] at hhosts
  exact ⟨rfl, by omega, hfixed, hinside, hunread, by rw [hnames]; exact .cons hname hhosts⟩

theorem endsAt (msg : Bytes) : EndsAt DnsRecord.read msg (recordEnd msg) :=
  fun _ _ _ h => (read_at h).cursor

theorem read_carries {K : ℕ → Prop} (hkeep : Keeps K buf buf')
    (hinside : ∀ i < readEnd buf pos, K i)
    (hnames : ∀ p ∈ recordNames buf pos, ∀ i, Touches buf p i → K i) :
    Carries DnsRecord.read buf buf' pos := by
  have hfixed : ∀ i < rdataStart buf pos, K i := fun i hi =>
    hinside i (hi.trans_le (le_contentEnd _ _ _ _))
  rw [read_eq]
  refine readQname_carries_bind hkeep (hnames pos List.mem_cons_self) fun domain => ?_
  refine readU16_fixed.carries_bind hkeep (fun i hi => ?_) fun qtypeNum c₂ h₂ => ?_
  · exact hfixed _ (by rw [rdataStart]; omega)
  have htype := recordType_eq h₂
  refine readU16_fixed.carries_bind hkeep (fun i hi => ?_) fun class' _ _ => ?_
  · exact hfixed _ (by rw [rdataStart]; omega)
  refine readU32_fixed.carries_bind hkeep (fun i hi => ?_) fun ttl _ _ => ?_
  · exact hfixed _ (by rw [rdataStart]; omega)
  refine readU16_fixed.carries_bind hkeep (fun i hi => ?_) fun dataLen c₅ h₅ => ?_
  · exact hfixed _ (by rw [rdataStart]; omega)
  have hlen := rdlength_eq h₅
  apply readContent_carries hkeep
  · rw [htype, hlen]
    exact hinside
  · rw [htype]
    exact fun p hp => hnames p (List.mem_cons_of_mem _ hp)

end DnsRecord

/-! ### Questions -/

namespace DnsQuestion

variable {msg buf buf' : Bytes} {pos : ℕ} {q : DnsQuestion} {c : BytePacketBuffer}

theorem read_at (h : DnsQuestion.read ⟨msg, pos⟩ = .ok q c) :
    c = ⟨msg, questionEnd msg pos⟩ ∧ pos < msg.length ∧ questionEnd msg pos ≤ msg.length ∧
      NameAt msg q.name pos := by
  obtain ⟨name, c₁, h₁, h⟩ := bind_ok_iff.mp h
  obtain ⟨qtypeNum, c₂, h₂, h⟩ := bind_ok_iff.mp h
  obtain ⟨class', c₃, h₃, h⟩ := bind_ok_iff.mp h
  cases h
  obtain ⟨rfl, hpos, hle, hname⟩ := readQname_ok h₁
  obtain rfl := readU16_fixed.advances _ _ _ h₂
  have hin := readU16_fixed.inside _ _ _ h₃ 1 (by omega)
  obtain rfl := readU16_fixed.advances _ _ _ h₃
  exact ⟨rfl, by omega, hin, hname⟩

theorem endsAt (msg : Bytes) : EndsAt DnsQuestion.read msg (questionEnd msg) :=
  fun _ _ _ h => (read_at h).1

theorem read_carries {K : ℕ → Prop} (hkeep : Keeps K buf buf')
    (hinside : ∀ i < questionEnd buf pos, K i) (hname : ∀ i, Touches buf pos i → K i) :
    Carries DnsQuestion.read buf buf' pos := by
  refine readQname_carries_bind hkeep hname fun domain => ?_
  refine readU16_fixed.carries_bind hkeep (fun i hi => ?_) fun qtypeNum _ _ => ?_
  · exact hinside _ (by rw [questionEnd]; omega)
  refine readU16_fixed.carries_bind hkeep (fun i hi => ?_) fun _ _ _ => .pure _
  exact hinside _ (by rw [questionEnd]; omega)

end DnsQuestion

end Brdns
