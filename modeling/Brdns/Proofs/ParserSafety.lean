import Brdns.Spec.Traced
import Brdns.Proofs.Wire

/-! The parser on arbitrary octets. Forgetting the record of a traced run leaves the run of the
parser itself, and every event on record is within the bounds of the buffer and of `usize`. -/

namespace Brdns

open Lib BytePacketBuffer TracedM

/-! ### The traced parser is the parser -/

namespace Traced

theorem getElem?_octet {buf : Bytes} {i : ℕ} (h : ¬ i ≥ buf.length) :
    buf[i]? = some (octet buf i) := by
  have hlt := Nat.lt_of_not_le h
  rw [octet, List.getD_eq_getElem?_getD, List.getElem?_eq_getElem hlt]
  rfl

theorem erase_read : read.erase = BytePacketBuffer.read := by
  funext c
  unfold erase read BytePacketBuffer.read
  split_ifs with h
  · rw [List.getElem?_eq_none h]
  · rw [getElem?_octet h]

theorem erase_readU16 : readU16.erase = BytePacketBuffer.readU16 := by
  simp only [readU16, BytePacketBuffer.readU16, erase_bind, erase_read, erase_pure]

theorem erase_readU32 : readU32.erase = BytePacketBuffer.readU32 := by
  simp only [readU32, BytePacketBuffer.readU32, erase_bind, erase_read, erase_pure]

theorem erase_readHeader : readHeader.erase = DnsHeader.read := by
  simp only [readHeader, DnsHeader.read, erase_bind, erase_readU16, erase_pure]

theorem erase_readOctets (n : ℕ) : (readOctets n).erase = DnsRecord.readOctets n := by
  induction n with
  | zero => rfl
  | succ n ih =>
    simp only [readOctets, DnsRecord.readOctets, erase_bind, erase_read, erase_pure, ih]

theorem erase_readString (data : Text) (n : ℕ) :
    (readString data n).erase = DnsRecord.readString data n := by
  induction n generalizing data with
  | zero => rfl
  | succ n ih => simp only [readString, DnsRecord.readString, erase_bind, erase_read, ih]

section

variable [Text.UnicodeTables]

theorem readQnameLoop_octet {self : BytePacketBuffer} {pos : ℕ} {jumped : Bool}
    {delim outstr : Text} {jumps : ℕ} (hlim : ¬ jumps > maxJumps)
    (hin : ¬ pos ≥ self.buf.length) :
    BytePacketBuffer.readQnameLoop self pos jumped delim outstr jumps =
      if octet self.buf pos &&& 0xC0 = 0xC0 then
        match self.buf[pos + 1]? with
        | none => .error .endOfBuffer ⟨self.buf, if jumped then self.pos else pos + 2⟩
        | some b2 => BytePacketBuffer.readQnameLoop
            ⟨self.buf, if jumped then self.pos else pos + 2⟩
            (pointerOffset (octet self.buf pos) b2) true delim outstr (jumps + 1)
      else if octet self.buf pos = 0 then
        .ok outstr ⟨self.buf, if jumped then self.pos else pos + 1⟩
      else if pos + 1 + (octet self.buf pos).toNat > self.buf.length then .error .endOfBuffer self
      else
        BytePacketBuffer.readQnameLoop self (pos + 1 + (octet self.buf pos).toNat) jumped ['.']
          (outstr ++ delim ++ Text.toLowercase (Text.fromUtf8Lossy
            ((self.buf.drop (pos + 1)).take (octet self.buf pos).toNat))) jumps := by
  conv_lhs => rw [BytePacketBuffer.readQnameLoop, dif_neg hlim]
  split
  · rename_i heq
    rw [getElem?_octet hin] at heq
    cases heq
  · rename_i len heq
    rw [getElem?_octet hin] at heq
    cases heq
    rfl

theorem erase_readQnameLoop (self : BytePacketBuffer) (pos : ℕ) (jumped : Bool)
    (delim outstr : Text) (jumps : ℕ) :
    (readQnameLoop self pos jumped delim outstr jumps).2 =
      BytePacketBuffer.readQnameLoop self pos jumped delim outstr jumps := by
  fun_induction readQnameLoop self pos jumped delim outstr jumps with
  | case1 self pos jumped delim outstr jumps hlim =>
    rw [BytePacketBuffer.readQnameLoop, dif_pos hlim]
  | case2 self pos jumped delim outstr jumps hlim hend =>
    rw [BytePacketBuffer.readQnameLoop, dif_neg hlim]
    split
    · rfl
    · rename_i heq
      rw [List.getElem?_eq_none hend] at heq
      cases heq
  | case3 self pos jumped delim outstr jumps hlim hin len htop moved events hend =>
    rw [readQnameLoop_octet hlim hin, if_pos htop, List.getElem?_eq_none hend]
    rfl
  | case4 self pos jumped delim outstr jumps hlim hin len htop moved events hin' rest ih =>
    rw [readQnameLoop_octet hlim hin, if_pos htop, getElem?_octet hin']
    exact ih
  | case5 self pos jumped delim outstr jumps hlim hin len htop hzero =>
    rw [readQnameLoop_octet hlim hin, if_neg htop, if_pos hzero]
  | case6 self pos jumped delim outstr jumps hlim hin len htop hzero events hend =>
    rw [readQnameLoop_octet hlim hin, if_neg htop, if_neg hzero, if_pos hend]
  | case7 self pos jumped delim outstr jumps hlim hin len htop hzero events hin' label rest ih =>
    rw [readQnameLoop_octet hlim hin, if_neg htop, if_neg hzero, if_neg hin']
    exact ih

theorem erase_readQname (outstr : Text) :
    (readQname outstr).erase = BytePacketBuffer.readQname outstr := by
  funext c
  exact erase_readQnameLoop c c.pos false [] outstr 0

end

theorem erase_readTxt {stop fuel : ℕ} {data : Text} {c : BytePacketBuffer}
    (h : stop ≤ c.pos + fuel) :
    (readTxt stop data c).2 = DnsRecord.readTxt stop data fuel c := by
  fun_induction readTxt stop data c with
  | case1 data c hlt es e c₁ hread =>
    have hread' : BytePacketBuffer.read c = .error e c₁ := by rw [← erase_read, erase, hread]
    rw [DnsRecord.readTxt_loop _ h, if_pos hlt, CursorM.bind_apply, hread']
  | case2 data c hlt es len c₁ hread es' e c₂ hstring =>
    have hread' : BytePacketBuffer.read c = .ok len c₁ := by rw [← erase_read, erase, hread]
    have hstring' : DnsRecord.readString data len.toNat c₁ = .error e c₂ := by
      rw [← erase_readString, erase, hstring]
    rw [DnsRecord.readTxt_loop _ h, if_pos hlt, CursorM.bind_of_ok hread', CursorM.bind_apply,
      hstring']
  | case3 data c hlt es len c₁ hread es' data' c₂ hstring rest ih =>
    have hread' : BytePacketBuffer.read c = .ok len c₁ := by rw [← erase_read, erase, hread]
    have hstring' : DnsRecord.readString data len.toNat c₁ = .ok data' c₂ := by
      rw [← erase_readString, erase, hstring]
    rw [DnsRecord.readTxt_loop _ h, if_pos hlt, CursorM.bind_of_ok hread',
      CursorM.bind_of_ok hstring']
    have hnext := read_pos hread
    have hstring := readString_pos hstring
    exact ih (by omega)
  | case4 data c hstop => rw [DnsRecord.readTxt_loop _ h, if_neg hstop]

section

variable [Text.UnicodeTables]

theorem erase_readQuestion : readQuestion.erase = DnsQuestion.read := by
  simp only [readQuestion, DnsQuestion.read, erase_bind, erase_readQname, erase_readU16,
    erase_pure]

theorem erase_readRecord : readRecord.erase = DnsRecord.read := by
  simp only [readRecord, DnsRecord.read, erase_bind, erase_readQname, erase_readU16,
    erase_readU32]
  congr 1; funext domain
  congr 1; funext qtypeNum
  congr 1; funext _class
  congr 1; funext ttl
  congr 1; funext dataLen
  cases QueryType.fromNum qtypeNum with
  | TXT =>
    funext c
    let strings : Traced Text := readTxt (c.pos + dataLen.toNat) []
    let record (data : Text) : DnsRecord := .TXT domain data ttl
    have hdata : strings.erase c =
        DnsRecord.readTxt (c.pos + dataLen.toNat) [] dataLen.toNat c := erase_readTxt le_rfl
    have hrun : (strings >>= fun data => pure (record data)).erase c =
        (DnsRecord.readTxt (c.pos + dataLen.toNat) [] dataLen.toNat >>=
          fun data => pure (record data)) c := by
      rw [erase_bind, CursorM.bind_apply, CursorM.bind_apply, hdata]
      rfl
    exact hrun
  | _ => simp only [readTyped, erase_bind, erase_readQname, erase_readU16, erase_readU32,
      erase_readOctets, erase_pure] <;> rfl

theorem erase_fromBuffer : fromBuffer.erase = DnsPacket.fromBuffer := by
  simp only [fromBuffer, DnsPacket.fromBuffer, erase_bind, erase_readMany, erase_readHeader,
    erase_readQuestion, erase_readRecord, erase_pure]

end

/-! ### Bounds -/

/-- What is safe in a buffer of `len` octets with the cursor at `cur`. A cursor past the end does
not move again. -/
def monitor (len : ℕ) : Monitor Event where
  moves
    | .moved pos | .skipped pos => some pos
    | _ => none
  Safe cur
    | .index i => i < len
    | .slice start n => start + n ≤ len
    | .add a b => a + b < 2 ^ 64
    | .moved pos => cur ≤ len ∧ pos ≤ len + 1
    | .skipped pos => cur ≤ len ∧ pos ≤ len + 65535
    | .name jumps _ => jumps ≤ 6
    | .txt _ => True

def Inside (len : ℕ) (c : BytePacketBuffer) : Prop := c.buf.length = len ∧ c.pos ≤ len

def Nearby (len : ℕ) (c : BytePacketBuffer) : Prop := c.buf.length = len ∧ c.pos ≤ len + 65535

section

variable {len : ℕ}

theorem Inside.nearby {c : BytePacketBuffer} (h : Inside len c) : Nearby len c :=
  ⟨h.1, h.2.trans (Nat.le_add_right _ _)⟩

/-- Safe with the cursor nearby; a value is returned only with the cursor inside. -/
def Inward {β : Type} (len : ℕ) (p : Traced β) : Prop :=
  Safely (monitor len) (Nearby len) p (Inside len)

theorem Inward.inside {β : Type} {p : Traced β} (h : Inward len p) :
    Safely (monitor len) (Inside len) p (Inside len) :=
  h.mono (fun _ => Inside.nearby) fun _ hc => hc

theorem Inward.nearby {β : Type} {p : Traced β} (h : Inward len p) :
    Safely (monitor len) (Nearby len) p (Nearby len) :=
  h.mono (fun _ hc => hc) fun _ => Inside.nearby

theorem Inward.bind {β γ : Type} {p : Traced β} {f : β → Traced γ} (hp : Inward len p)
    (hf : ∀ v, Inward len (f v)) : Inward len (p >>= f) :=
  Safely.bind hp fun v => (hf v).inside

theorem Inward.bind_pure {β γ : Type} {p : Traced β} {f : β → γ} (hp : Inward len p) :
    Inward len (p >>= fun v => pure (f v)) :=
  Safely.bind hp fun v => Safely.pure (f v)

variable (hlen : len < 2 ^ 62)

include hlen

theorem inward_read : Inward len read := by
  rintro c ⟨hbuf, hpos⟩
  unfold read
  split_ifs with hend
  · exact ⟨trivial, rfl, fun _ _ h => by cases h⟩
  · have hin : c.pos < len := by omega
    refine ⟨?_, rfl, fun v c' h => ?_⟩
    · simp only [Monitor.Accepts, monitor, Option.getD_none, and_true]
      omega
    · cases h
      exact ⟨hbuf, hin⟩

theorem inward_readU16 : Inward len readU16 :=
  (inward_read hlen).bind fun _ => (inward_read hlen).bind_pure

theorem inward_readU32 : Inward len readU32 :=
  (inward_read hlen).bind fun _ => (inward_read hlen).bind fun _ =>
    (inward_read hlen).bind fun _ => (inward_read hlen).bind_pure

theorem inward_readHeader : Inward len readHeader := by
  have hnum := inward_readU16 hlen
  exact hnum.bind fun _ => hnum.bind fun _ => hnum.bind fun _ => hnum.bind fun _ =>
    hnum.bind fun _ => hnum.bind_pure

theorem safely_readOctets (n : ℕ) :
    Safely (monitor len) (Inside len) (readOctets n) (Inside len) := by
  induction n with
  | zero => exact Safely.pure _
  | succ n ih => exact (inward_read hlen).inside.bind fun _ => ih.bind fun _ => Safely.pure _

theorem safely_readString (data : Text) (n : ℕ) :
    Safely (monitor len) (Inside len) (readString data n) (Inside len) := by
  induction n generalizing data with
  | zero => exact Safely.pure _
  | succ n ih => exact (inward_read hlen).inside.bind fun _ => ih _

theorem safely_step (steps : UInt16) :
    Safely (monitor len) (Inside len) (step steps.toNat) (Nearby len) := by
  rintro c ⟨hbuf, hpos⟩
  have hsteps := steps.toNat_lt
  refine ⟨?_, rfl, fun v c' h => ?_⟩
  · simp only [step, Monitor.Accepts, monitor, Option.getD_none, and_true]
    omega
  · cases h
    exact ⟨hbuf, by dsimp only; omega⟩

section

variable [Text.UnicodeTables]

/-- All the loop needs of the cursor is that it is inside while `pos` is. -/
theorem safely_readQnameLoop (self : BytePacketBuffer) (pos : ℕ) (jumped : Bool)
    (delim outstr : Text) (jumps : ℕ) (hbuf : self.buf.length = len) (hjumps : jumps ≤ 6)
    (hcur : pos < len → self.pos ≤ len) :
    SafeRun (monitor len) self.pos (readQnameLoop self pos jumped delim outstr jumps)
      (Inside len) := by
  fun_induction readQnameLoop self pos jumped delim outstr jumps with
  | case1 self pos jumped delim outstr jumps hlim =>
    exact ⟨⟨hjumps, trivial⟩, rfl, fun _ _ h => by cases h⟩
  | case2 self pos jumped delim outstr jumps hlim hend =>
    exact ⟨⟨hjumps, trivial⟩, rfl, fun _ _ h => by cases h⟩
  | case3 self pos jumped delim outstr jumps hlim hin top htop moved events hend =>
    have hself := hcur (by omega)
    cases jumped with
    | true =>
      refine ⟨?_, rfl, fun _ _ h => by cases h⟩
      simp [events, Monitor.Accepts, monitor]
      omega
    | false =>
      refine ⟨?_, rfl, fun _ _ h => by cases h⟩
      simp [events, Monitor.Accepts, monitor]
      omega
  | case4 self pos jumped delim outstr jumps hlim hin top htop moved events hin' rest ih =>
    have hself := hcur (by omega)
    have hjumps' : jumps + 1 ≤ 6 := Nat.succ_le_succ (Nat.le_of_not_gt hlim)
    cases jumped with
    | true =>
      refine SafeRun.prepend ?_ (ih hbuf hjumps' fun _ => hself)
      simp [events, Monitor.Accepts, monitor]
      omega
    | false =>
      refine SafeRun.prepend ?_ (ih hbuf hjumps' fun _ => ?_)
      · simp [events, Monitor.Accepts, monitor]
        omega
      · change pos + 2 ≤ len
        omega
  | case5 self pos jumped delim outstr jumps hlim hin top htop hzero =>
    have hself := hcur (by omega)
    cases jumped with
    | true =>
      refine ⟨?_, rfl, fun _ _ h => by cases h; exact ⟨hbuf, hself⟩⟩
      simp [Monitor.Accepts, monitor]
      omega
    | false =>
      refine ⟨?_, rfl, fun _ _ h => by cases h; exact ⟨hbuf, by simp; omega⟩⟩
      simp [Monitor.Accepts, monitor]
      omega
  | case6 self pos jumped delim outstr jumps hlim hin len' htop hzero events hend =>
    refine ⟨?_, rfl, fun _ _ h => by cases h⟩
    have hlen' := len'.toNat_lt
    simp [events, Monitor.Accepts, monitor]
    omega
  | case7 self pos jumped delim outstr jumps hlim hin len' htop hzero events hin' label rest ih =>
    have hself := hcur (by omega)
    have hlen' := len'.toNat_lt
    refine SafeRun.prepend ?_ (ih hbuf hjumps fun _ => hself)
    simp [events, Monitor.Accepts, monitor]
    omega

theorem inward_readQname (outstr : Text) : Inward len (readQname outstr) := by
  rintro c ⟨hbuf, hpos⟩
  exact safely_readQnameLoop hlen c c.pos false [] outstr 0 hbuf (Nat.zero_le _) Nat.le_of_lt

theorem inward_readQuestion : Inward len readQuestion :=
  (inward_readQname hlen []).bind fun _ => (inward_readU16 hlen).bind fun _ =>
    (inward_readU16 hlen).bind_pure

end

omit hlen in
theorem safeRun_txt {β : Type} {cur pos : ℕ} {Post : BytePacketBuffer → Prop}
    {run : List Event × EStateM.Result BufferError BytePacketBuffer β}
    (h : SafeRun (monitor len) cur run Post) :
    SafeRun (monitor len) cur (.txt pos :: run.1, run.2) Post :=
  h.still rfl trivial

theorem safely_readTxt (stop : ℕ) (data : Text) :
    Safely (monitor len) (Inside len) (readTxt stop data : Traced Text) (Inside len) := by
  intro c
  fun_induction readTxt stop data c with
  | case1 data c hlt es e c₁ hread =>
    intro hc
    have hrun := (inward_read hlen).inside c hc
    rw [hread] at hrun
    exact safeRun_txt hrun.fail
  | case2 data c hlt es octets c₁ hread es' e c₂ hstring =>
    intro hc
    have hrun := (inward_read hlen).inside c hc
    rw [hread] at hrun
    have hrun' := safely_readString hlen data octets.toNat c₁ (hrun.post _ _ rfl)
    rw [hstring] at hrun'
    exact safeRun_txt (hrun.next hrun'.fail)
  | case3 data c hlt es octets c₁ hread es' data' c₂ hstring rest ih =>
    intro hc
    have hrun := (inward_read hlen).inside c hc
    rw [hread] at hrun
    have hrun' := safely_readString hlen data octets.toNat c₁ (hrun.post _ _ rfl)
    rw [hstring] at hrun'
    exact (safeRun_txt (hrun.next hrun')).next (ih (hrun'.post _ _ rfl))
  | case4 data c hstop =>
    intro hc
    exact safeRun_txt (Safely.pure data c hc)

section

variable [Text.UnicodeTables]

theorem safely_readTyped (domain : Text) (qtypeNum : UInt16) (ttl : UInt32) (dataLen : UInt16)
    (qtype : QueryType) : Safely (monitor len) (Inside len)
      (readTyped domain qtypeNum ttl dataLen qtype) (Nearby len) := by
  have hinside {p : Traced DnsRecord} (h : Safely (monitor len) (Inside len) p (Inside len)) :
      Safely (monitor len) (Inside len) p (Nearby len) :=
    h.mono (fun _ hc => hc) fun _ => Inside.nearby
  have hname := (inward_readQname hlen []).inside
  cases qtype with
  | A => exact hinside (inward_readU32 hlen).bind_pure.inside
  | AAAA => exact hinside ((safely_readOctets hlen 16).bind fun _ => Safely.pure _)
  | CNAME => exact hinside (hname.bind fun _ => Safely.pure _)
  | NS => exact hinside (hname.bind fun _ => Safely.pure _)
  | MX =>
    exact hinside ((inward_readU16 hlen).inside.bind fun _ => hname.bind fun _ => Safely.pure _)
  | TXT =>
    refine hinside (Safely.position_bind fun pos => ?_)
    have hstop : Safely (monitor len) (fun c => Inside len c ∧ c.pos = pos)
        (TracedM.record (.add pos dataLen.toNat) : Traced Unit)
        (fun c => Inside len c ∧ c.pos = pos) := by
      refine Safely.record rfl fun c hc => ?_
      have hpos : pos ≤ len := hc.2 ▸ hc.1.2
      have hdata := dataLen.toNat_lt
      change pos + dataLen.toNat < 2 ^ 64
      omega
    refine hstop.bind fun _ => ?_
    exact ((safely_readTxt hlen _ []).mono (fun _ hc => hc.1) fun _ hc => hc).bind fun _ =>
      Safely.pure _
  | UNKNOWN num => exact (safely_step hlen dataLen).bind fun _ => Safely.pure _

theorem safely_readRecord : Safely (monitor len) (Nearby len) readRecord (Nearby len) :=
  Safely.bind (inward_readQname hlen []) fun _ => (inward_readU16 hlen).inside.bind fun _ =>
    (inward_readU16 hlen).inside.bind fun _ => (inward_readU32 hlen).inside.bind fun _ =>
    (inward_readU16 hlen).inside.bind fun _ => safely_readTyped hlen _ _ _ _ _

theorem safely_fromBuffer : Safely (monitor len) (Nearby len) fromBuffer (Nearby len) := by
  have hrecords := Safely.readMany (safely_readRecord hlen)
  exact (inward_readHeader hlen).nearby.bind fun _ =>
    (Safely.readMany (inward_readQuestion hlen).nearby _).bind fun _ => (hrecords _).bind fun _ =>
    (hrecords _).bind fun _ => (hrecords _).bind fun _ => Safely.pure _

end

end

/-! ### Progress -/

/-- The heads of the loop of `read_qname`: jumps performed and position. -/
def nameHeads (es : List Event) : List (ℕ × ℕ) :=
  es.filterMap fun
    | .name jumps pos => some (jumps, pos)
    | _ => none

def txtHeads (es : List Event) : List ℕ :=
  es.filterMap fun
    | .txt pos => some pos
    | _ => none

/-- One round later: further on after as many jumps, or one jump later. -/
def Onward (head next : ℕ × ℕ) : Prop :=
  (next.1 = head.1 ∧ head.2 < next.2) ∨ next.1 = head.1 + 1

theorem isChain_of_head {α : Type} {R : α → α → Prop} {a b : α} {l : List α} (hab : R a b)
    (hhead : l.head? = some b) (hl : l.IsChain R) : (a :: l).IsChain R := by
  refine List.isChain_cons.mpr ⟨fun b' hb' => ?_, hl⟩
  rw [hhead] at hb'
  cases hb'
  exact hab

section

variable [Text.UnicodeTables]

theorem nameHeads_readQnameLoop (self : BytePacketBuffer) (pos : ℕ) (jumped : Bool)
    (delim outstr : Text) (jumps : ℕ) :
    (nameHeads (readQnameLoop self pos jumped delim outstr jumps).1).head? = some (jumps, pos) ∧
      (nameHeads (readQnameLoop self pos jumped delim outstr jumps).1).IsChain Onward := by
  fun_induction readQnameLoop self pos jumped delim outstr jumps with
  | case1 | case2 => exact ⟨rfl, .singleton _⟩
  | case3 self pos jumped delim outstr jumps hlim hin top htop moved events hend =>
    cases jumped <;> exact ⟨rfl, .singleton _⟩
  | case4 self pos jumped delim outstr jumps hlim hin top htop moved events hin' rest ih =>
    have hheads : nameHeads (events ++ [.add pos 1, .index (pos + 1)] ++ rest.1) =
        (jumps, pos) :: nameHeads rest.1 := by cases jumped <;> rfl
    rw [hheads]
    exact ⟨rfl, isChain_of_head (.inr rfl) ih.1 ih.2⟩
  | case5 self pos jumped delim outstr jumps hlim hin top htop hzero =>
    cases jumped <;> exact ⟨rfl, .singleton _⟩
  | case6 => exact ⟨rfl, .singleton _⟩
  | case7 self pos jumped delim outstr jumps hlim hin len' htop hzero events hin' label rest ih =>
    have hheads : nameHeads (events ++ [.slice (pos + 1) len'.toNat, .add (pos + 1) len'.toNat] ++
        rest.1) = (jumps, pos) :: nameHeads rest.1 := rfl
    rw [hheads]
    have hon : Onward (jumps, pos) (jumps, pos + 1 + len'.toNat) :=
      .inl ⟨rfl, by dsimp only; omega⟩
    exact ⟨rfl, isChain_of_head hon ih.1 ih.2⟩

end

theorem txtHeads_append (es es' : List Event) :
    txtHeads (es ++ es') = txtHeads es ++ txtHeads es' := List.filterMap_append

theorem txtHeads_read (c : BytePacketBuffer) : txtHeads (read c).1 = [] := by
  unfold read
  split_ifs <;> rfl

theorem txtHeads_readString (data : Text) (n : ℕ) (c : BytePacketBuffer) :
    txtHeads (readString data n c).1 = [] := by
  induction n generalizing data c with
  | zero => rfl
  | succ n ih =>
    have hread := txtHeads_read c
    rw [readString]
    rcases hrun : read c with ⟨es, ⟨v, c'⟩ | ⟨e, c'⟩⟩
    · rw [hrun] at hread
      rw [bind_of_ok hrun, txtHeads_append, hread, ih]
      rfl
    · rw [hrun] at hread
      rw [bind_of_error hrun]
      exact hread

/-- Reading a string leaves no head of the loop behind. -/
theorem txtHeads_round {c c₁ : BytePacketBuffer} {es es' : List Event} {len : UInt8} {n : ℕ}
    {data : Text} {result : EStateM.Result BufferError BytePacketBuffer Text}
    (hread : read c = (es, .ok len c₁)) (hstring : readString data n c₁ = (es', result)) :
    txtHeads (.txt c.pos :: es ++ es') = [c.pos] := by
  have hes : txtHeads es = [] := by rw [← txtHeads_read c, hread]
  have hes' : txtHeads es' = [] := by rw [← txtHeads_readString data n c₁, hstring]
  rw [txtHeads_append, hes', List.append_nil]
  change c.pos :: txtHeads es = _
  rw [hes]

theorem txtHeads_readTxt (stop : ℕ) (data : Text) (c : BytePacketBuffer) :
    (txtHeads (readTxt stop data c).1).head? = some c.pos ∧
      (txtHeads (readTxt stop data c).1).IsChain (· < ·) := by
  fun_induction readTxt stop data c with
  | case1 data c hlt es e c₁ hread =>
    have hes : txtHeads es = [] := by rw [← txtHeads_read c, hread]
    have hheads : txtHeads (.txt c.pos :: es) = c.pos :: txtHeads es := rfl
    rw [hheads, hes]
    exact ⟨rfl, .singleton _⟩
  | case2 data c hlt es len c₁ hread es' e c₂ hstring =>
    rw [txtHeads_round hread hstring]
    exact ⟨rfl, .singleton _⟩
  | case3 data c hlt es len c₁ hread es' data' c₂ hstring rest ih =>
    have hnext := read_pos hread
    have hlast := readString_pos hstring
    rw [txtHeads_append, txtHeads_round hread hstring]
    have hon : c.pos < c₂.pos := by omega
    exact ⟨rfl, isChain_of_head hon ih.1 ih.2⟩
  | case4 data c hstop => exact ⟨rfl, .singleton _⟩

/-! ### Every input -/

structure SafeParse [Text.UnicodeTables] (data : Bytes) : Prop where
  /-- The record is that of the parser, which ends with a packet or an error. -/
  result : (fromBuffer (fromBytes data)).2 = DnsPacket.fromBuffer (fromBytes data)
  /-- Indices, slices, additions and jumps are within bounds. -/
  accepts : (monitor data.length).Accepts 0 (fromBuffer (fromBytes data)).1
  /-- The record accounts for every move of the cursor. -/
  ends : (monitor data.length).after 0 (fromBuffer (fromBytes data)).1 =
    (endCursor (fromBuffer (fromBytes data)).2).pos
  bounded : ∀ es, es <+: (fromBuffer (fromBytes data)).1 →
    (monitor data.length).after 0 es ≤ data.length + 65535
  /-- Only the skip of an unknown record goes further than one past the end. -/
  overshoot : ∀ es, es <+: (fromBuffer (fromBytes data)).1 →
    (monitor data.length).after 0 es ≤ data.length + 1 ∨
      ∃ front pos tail, es = front ++ .skipped pos :: tail ∧
        ∀ e ∈ tail, (monitor data.length).moves e = none

theorem bounds_of_accepts {len : ℕ} {es : List Event} (h : (monitor len).Accepts 0 es) :
    (monitor len).after 0 es ≤ len + 1 ∨ ((monitor len).after 0 es ≤ len + 65535 ∧
      ∃ front pos tail, es = front ++ .skipped pos :: tail ∧
        ∀ e ∈ tail, (monitor len).moves e = none) := by
  rcases (monitor len).still_or_last_move 0 es with hstill | ⟨front, e, tail, hes, hmove, htail⟩
  · rw [(monitor len).after_of_still hstill]
    exact .inl (Nat.zero_le _)
  · rw [hes, (monitor len).accepts_append] at h
    have hsafe := h.2.1
    cases e with
    | moved pos =>
      have hpos : pos = (monitor len).after 0 es := Option.some.inj hmove
      exact .inl (hpos ▸ hsafe.2)
    | skipped pos =>
      have hpos : pos = (monitor len).after 0 es := Option.some.inj hmove
      exact .inr ⟨hpos ▸ hsafe.2, front, pos, tail, hes, htail⟩
    | _ => cases hmove

/-- Every input of less than `2 ^ 62` octets is parsed within bounds, every loop of a name jumps
at most six times and moves on in between, and every loop over strings moves on. -/
theorem fromBuffer_safe [Text.UnicodeTables] {data : Bytes} (hdata : data.length < 2 ^ 62) :
    SafeParse data ∧
    (∀ outstr c, (nameHeads (readQname outstr c).1).head? = some (0, c.pos) ∧
      (nameHeads (readQname outstr c).1).IsChain Onward) ∧
    ∀ stop text c, (txtHeads (readTxt stop text c).1).head? = some c.pos ∧
      (txtHeads (readTxt stop text c).1).IsChain (· < ·) := by
  have hrun := safely_fromBuffer hdata (fromBytes data) ⟨rfl, Nat.zero_le _⟩
  have hfront {es : List Event} (hes : es <+: (fromBuffer (fromBytes data)).1) :
      (monitor data.length).Accepts 0 es := Monitor.accepts_of_prefix _ hes hrun.accepts
  refine ⟨⟨?_, hrun.accepts, hrun.ends, fun es hes => ?_, fun es hes => ?_⟩,
    fun outstr c => nameHeads_readQnameLoop c c.pos false [] outstr 0, txtHeads_readTxt⟩
  · exact congrFun erase_fromBuffer (fromBytes data)
  · have h := bounds_of_accepts (hfront hes)
    omega
  · exact (bounds_of_accepts (hfront hes)).imp_right And.right

section

attribute [local instance] Text.asciiTables

/-- One answer of an unknown type whose data would be 65535 octets further on. -/
def skippedAnswer : Bytes :=
  [0, 7, 0, 0, 0, 0, 0, 1, 0, 0, 0, 0, 0, 255, 255, 0, 1, 0, 0, 0, 0, 255, 255]

/-- The cursor gets as far past the end as it ever does. -/
theorem fromBuffer_safe_skip : skippedAnswer.length < 2 ^ 62 ∧ SafeParse skippedAnswer ∧
    (endCursor (fromBuffer (fromBytes skippedAnswer)).2).pos = skippedAnswer.length + 65535 :=
  ⟨by decide, (fromBuffer_safe (by decide)).1, by decide +kernel⟩

end

end Traced

end Brdns
