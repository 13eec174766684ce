import Brdns.Lib.Ascii
import Brdns.Proofs.Names

/-! What the buffer's writers emit and its readers decode: octets, words, and names made of
lowercase ASCII labels. -/

namespace Brdns

open Lib CursorM Word BytePacketBuffer

/-! ### Octets and words -/

/-- The buffer a write goes to, grown by one octet at its end. -/
theorem write_apply {c : BytePacketBuffer} (h : c.pos ≤ c.buf.length) (val : UInt8) :
    write val c = .ok () ⟨c.buf.take c.pos ++ val :: c.buf.drop (c.pos + 1), c.pos + 1⟩ := by
  rw [write]
  congr 2
  rcases Nat.lt_or_eq_of_le h with hlt | heq
  · rw [if_neg (Nat.not_le.mpr hlt), List.set_eq_take_append_cons_drop, if_pos hlt]
  · rw [if_pos (Nat.le_of_eq heq.symm), resize, heq, Nat.add_sub_cancel_left,
      List.take_of_length_le (Nat.le_succ _), List.take_length, List.drop_eq_nil_of_le (by omega)]
    simp [List.replicate]

theorem emits_write (val : UInt8) : Emits (write val) [val] := by
  intro c hc
  refine ⟨(), _, write_apply hc val, ?_, rfl, ?_, ?_⟩
  · simp [Cursor.written, List.take_append, List.take_take, hc]
  · simp
    omega
  · simp [List.drop_append, hc]

theorem emits_writeU8 (val : UInt8) : Emits (writeU8 val) [val] := emits_write val

theorem emits_writeU16 (val : UInt16) : Emits (writeU16 val) (octets16 val) :=
  (emits_write _).bind fun _ => emits_write _

theorem emits_writeU32 (val : UInt32) : Emits (writeU32 val) (octets32 val) :=
  (emits_write _).bind fun _ => (emits_write _).bind fun _ => (emits_write _).bind fun _ =>
    emits_write _

theorem emits_forM_writeU8 (l : Bytes) : Emits (forM l writeU8) l := by
  have h : Emits (forM l writeU8) (l.flatMap fun b => [b]) :=
    Emits.forM l fun b _ => emits_writeU8 b
  simpa using h

theorem decodes_read (b : UInt8) : Decodes BytePacketBuffer.read [b] b := by
  intro before after
  simp [BytePacketBuffer.read]

theorem decodes_join16 (hi lo : UInt8) :
    Decodes readU16 [hi, lo] ((hi.toUInt16 <<< 8) ||| lo.toUInt16) :=
  (decodes_read hi).bind (decodes_read lo).bind_pure

theorem decodes_readU16 (val : UInt16) : Decodes readU16 (octets16 val) val := by
  have h := decodes_join16 (val >>> 8).toUInt8 (val &&& 0xFF).toUInt8
  rwa [join_octets16] at h

theorem decodes_join32 (b₀ b₁ b₂ b₃ : UInt8) :
    Decodes readU32 [b₀, b₁, b₂, b₃] (join32 b₀ b₁ b₂ b₃) :=
  (decodes_read b₀).bind ((decodes_read b₁).bind ((decodes_read b₂).bind
    (decodes_read b₃).bind_pure))

theorem decodes_readU32 (val : UInt32) : Decodes readU32 (octets32 val) val := by
  have h := decodes_join32 ((val >>> 24) &&& 0xFF).toUInt8 ((val >>> 16) &&& 0xFF).toUInt8
    ((val >>> 8) &&& 0xFF).toUInt8 (val &&& 0xFF).toUInt8
  rwa [join_octets32] at h

/-! ### How far the readers go -/

theorem read_ok_iff {c c' : BytePacketBuffer} {b : UInt8} :
    BytePacketBuffer.read c = .ok b c' ↔ c.buf[c.pos]? = some b ∧ c' = ⟨c.buf, c.pos + 1⟩ := by
  cases hb : c.buf[c.pos]? with
  | none => simp [BytePacketBuffer.read, hb]
  | some o => simp [BytePacketBuffer.read, hb, eq_comm]

theorem read_fixed : Fixed BytePacketBuffer.read 1 where
  advances := by
    intro c b c' h
    exact (read_ok_iff.mp h).2
  inside := by
    intro c b c' h i hi
    have := (List.getElem?_eq_some_iff.mp (read_ok_iff.mp h).1).1
    omega
  carries := by
    intro K buf buf' pos hkeep hK b c' h
    obtain ⟨hb, rfl⟩ := read_ok_iff.mp h
    exact ⟨rfl, read_ok_iff.mpr ⟨hkeep pos b (hK 0 Nat.one_pos) hb, rfl⟩⟩

theorem readU16_fixed : Fixed readU16 2 :=
  read_fixed.bind fun _ => read_fixed.bind fun _ => .pure _

theorem readU32_fixed : Fixed readU32 4 :=
  read_fixed.bind fun _ => read_fixed.bind fun _ => read_fixed.bind fun _ => read_fixed.bind
    fun _ => .pure _

/-! ### Names -/

/-- 1 to 63 ASCII characters other than the dot. -/
structure AsciiLabel (label : Text) : Prop where
  ascii : Text.IsAscii label
  nonempty : label ≠ []
  short : label.length ≤ 63
  no_dot : '.' ∉ label

/-- A label that is read back as it was written: without capitals. -/
structure LegalLabel (label : Text) : Prop extends AsciiLabel label where
  lower : ∀ c ∈ label, c.isUpper = false

def NameOf (P : Text → Prop) (name : Text) : Prop :=
  ∃ labels, labels ≠ [] ∧ (∀ l ∈ labels, P l) ∧ name = Text.join '.' labels

abbrev AsciiName : Text → Prop := NameOf AsciiLabel

abbrev LegalName : Text → Prop := NameOf LegalLabel

/-- Splitting at the dots is the only way to see the labels of a name. -/
theorem nameOf_iff {P : Text → Prop} (hdot : ∀ l, P l → '.' ∉ l) {name : Text} :
    NameOf P name ↔ ∀ l ∈ Text.split '.' name, P l := by
  constructor
  · rintro ⟨labels, hne, hlabels, rfl⟩
    rwa [Text.split_join hne fun l hl => hdot l (hlabels l hl)]
  · intro h
    exact ⟨Text.split '.' name, List.splitOn_ne_nil '.' name, h, (Text.join_split '.' name).symm⟩

theorem legalName_iff {name : Text} : LegalName name ↔ ∀ l ∈ Text.split '.' name, LegalLabel l :=
  nameOf_iff fun _ hl => hl.no_dot

theorem asciiName_iff {name : Text} : AsciiName name ↔ ∀ l ∈ Text.split '.' name, AsciiLabel l :=
  nameOf_iff fun _ hl => hl.no_dot

instance (label : Text) : Decidable (AsciiLabel label) :=
  decidable_of_iff (Text.IsAscii label ∧ label ≠ [] ∧ label.length ≤ 63 ∧ '.' ∉ label)
    ⟨fun ⟨h₁, h₂, h₃, h₄⟩ => ⟨h₁, h₂, h₃, h₄⟩, fun ⟨h₁, h₂, h₃, h₄⟩ => ⟨h₁, h₂, h₃, h₄⟩⟩

instance (label : Text) : Decidable (LegalLabel label) :=
  haveI : Decidable (∀ c ∈ label, c.isUpper = false) := List.decidableBAll _ label
  decidable_of_iff (AsciiLabel label ∧ ∀ c ∈ label, c.isUpper = false)
    ⟨fun ⟨h₁, h₂⟩ => ⟨h₁, h₂⟩, fun ⟨h₁, h₂⟩ => ⟨h₁, h₂⟩⟩

instance (name : Text) : Decidable (AsciiName name) := decidable_of_iff _ asciiName_iff.symm

instance (name : Text) : Decidable (LegalName name) := decidable_of_iff _ legalName_iff.symm

theorem AsciiName.legal {name : Text} (h : AsciiName name)
    (hlower : ∀ c ∈ name, c.isUpper = false) : LegalName name := by
  obtain ⟨labels, hne, hlabels, rfl⟩ := h
  refine ⟨labels, hne, fun l hl => ⟨hlabels l hl, fun c hc => ?_⟩, rfl⟩
  exact hlower c (Text.mem_join_of_mem hl hc)

def nameWire (name : Text) : Bytes := DnsName.wire ((Text.split '.' name).map Text.bytes)

/-- A name the writer takes: its labels are short enough, whatever they are made of. -/
def WritableName (name : Text) : Prop := ∀ l ∈ Text.split '.' name, Text.len l ≤ 63

instance (name : Text) : Decidable (WritableName name) := List.decidableBAll _ _

theorem LegalName.writable {name : Text} (h : LegalName name) : WritableName name := by
  intro l hl
  have hlegal := legalName_iff.mp h l hl
  rw [Text.len_of_ascii hlegal.ascii]
  exact hlegal.short

theorem LegalLabel.bytes_length {label : Text} (h : LegalLabel label) :
    (Text.bytes label).length = label.length := Text.len_of_ascii h.ascii

theorem emits_writeLabel {label : Text} (h : Text.len label ≤ 63) :
    Emits (writeLabel label) (UInt8.ofNat (Text.bytes label).length :: Text.bytes label) := by
  have hlen : ¬ Text.len label > 0x3f := Nat.not_lt.mpr h
  rw [writeLabel]
  simp only [hlen, if_false]
  exact (emits_writeU8 _).bind fun _ => emits_forM_writeU8 _

theorem refuses_writeLabel {label : Text} (h : 63 < Text.len label) :
    Refuses (writeLabel label) := by
  intro c hc
  rw [writeLabel]
  simp only [h, if_true]
  exact ⟨_, _, rfl⟩

theorem emits_writeQname {name : Text} (h : WritableName name) :
    Emits (writeQname name) (nameWire name) := by
  rw [nameWire, DnsName.wire, List.flatMap_map]
  exact (Emits.forM _ fun l hl => emits_writeLabel (h l hl)).bind fun _ => emits_writeU8 0

/-- A name with a label that is too long is not written. -/
theorem refuses_writeQname {name : Text} (h : ¬ WritableName name) :
    Refuses (writeQname name) := by
  have hlabel (l : Text) : Emits (writeLabel l)
      (UInt8.ofNat (Text.bytes l).length :: Text.bytes l) ∨ Refuses (writeLabel l) := by
    rcases Nat.lt_or_ge 63 (Text.len l) with hlong | hshort
    · exact .inr (refuses_writeLabel hlong)
    · exact .inl (emits_writeLabel hshort)
  simp only [WritableName, not_forall, Nat.not_le] at h
  obtain ⟨l, hl, hlong⟩ := h
  exact (Refuses.forM (fun l _ => hlabel l) ⟨l, hl, refuses_writeLabel hlong⟩).bind_right

variable [Text.UnicodeTables]

/-- A legal label is read as it was written. -/
theorem LegalLabel.read_back {label : Text} (h : LegalLabel label) :
    labelText (Text.bytes label) = label := by
  rw [labelText, Text.fromUtf8Lossy_bytes h.ascii, Text.toLowercase_of_ascii h.ascii,
    Text.toAsciiLowercase_of_not_upper h.lower]

theorem decodes_readQname {name : Text} (h : LegalName name) :
    Decodes (readQname []) (nameWire name) name := by
  intro before after
  have hlegal := legalName_iff.mp h
  have hsizes : ∀ l ∈ (Text.split '.' name).map Text.bytes, 1 ≤ l.length ∧ l.length ≤ 63 := by
    intro l hl
    obtain ⟨label, hlabel, rfl⟩ := List.mem_map.mp hl
    have hlabel := hlegal label hlabel
    rw [hlabel.bytes_length]
    exact ⟨List.length_pos_iff.mpr hlabel.nonempty, hlabel.short⟩
  have hback : ((Text.split '.' name).map Text.bytes).map labelText = Text.split '.' name := by
    rw [List.map_map]
    conv_rhs => rw [← List.map_id (Text.split '.' name)]
    exact List.map_congr_left fun l hl => (hlegal l hl).read_back
  rw [readQname, nameWire, readQnameLoop_expands (DnsName.expands_wire _ hsizes before after)
    (Nat.zero_le _), hback, joinFrom_nil, Text.join_split]
  rfl

end Brdns
