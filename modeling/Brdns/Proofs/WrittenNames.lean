import Brdns.Proofs.Hostnames
import Brdns.Proofs.Octets

/-! What `write_qname` puts at any cursor, also past the end of the buffer, and which texts it
writes as the names they stand for: hostnames of accounts, the root, names with a trailing dot. -/

namespace Brdns

open Lib CursorM BytePacketBuffer

/-! ### Writing at any cursor -/

/-- The buffer with the zeros that the first write past its end puts before the cursor. -/
def padded (c : BytePacketBuffer) : BytePacketBuffer :=
  ⟨c.buf ++ List.replicate (c.pos - c.buf.length) 0, c.pos⟩

theorem padded_inside (c : BytePacketBuffer) : (padded c).pos ≤ (padded c).buf.length := by
  simp only [padded, List.length_append, List.length_replicate]
  omega

theorem write_padded (val : UInt8) (c : BytePacketBuffer) : write val c = write val (padded c) := by
  rcases Nat.lt_or_ge c.pos c.buf.length with hin | hout
  · have hsame : padded c = c := by
      rw [padded, Nat.sub_eq_zero_of_le hin.le, List.replicate_zero, List.append_nil]
    rw [hsame]
  · have hlen : (padded c).buf.length = c.pos := by
      simp only [padded, List.length_append, List.length_replicate]
      omega
    have hgrow : resize c.buf (c.pos + 1) = resize (padded c).buf (c.pos + 1) := by
      rw [resize, resize, hlen, List.take_of_length_le (by omega),
        List.take_of_length_le (by omega), padded, List.append_assoc,
        List.replicate_append_replicate]
      congr 2
      omega
    have hout' : (padded c).pos ≥ (padded c).buf.length := hlen.le
    rw [write, write, if_pos hout, if_pos hout', show (padded c).pos = c.pos from rfl, hgrow]

theorem writeLabel_padded {label : Text} (h : Text.len label ≤ 63) (c : BytePacketBuffer) :
    writeLabel label c = writeLabel label (padded c) := by
  have hlen : ¬ Text.len label > 0x3f := Nat.not_lt.mpr h
  rw [writeLabel]
  simp only [hlen, if_false]
  rw [bind_apply, bind_apply, writeU8, write_padded]

theorem exists_first_label (name : Text) : ∃ first rest, Text.split '.' name = first :: rest :=
  List.exists_cons_of_ne_nil (List.splitOn_ne_nil '.' name)

theorem writeQname_padded {name first : Text} {rest : List Text}
    (hsplit : Text.split '.' name = first :: rest) (h : Text.len first ≤ 63)
    (c : BytePacketBuffer) : writeQname name c = writeQname name (padded c) := by
  rw [writeQname, hsplit, List.forM_cons, bind_assoc, bind_apply, bind_apply, writeLabel_padded h]

/-- The octets of the name, with zeros before them where the cursor was past the end. -/
theorem writeQname_at {name : Text} (h : WritableName name) (c : BytePacketBuffer) :
    writeQname name c = .ok () ⟨resize c.buf c.pos ++ nameWire name ++
      c.buf.drop (c.pos + (nameWire name).length), c.pos + (nameWire name).length⟩ := by
  obtain ⟨first, rest, hsplit⟩ := exists_first_label name
  have hfirst : Text.len first ≤ 63 := h first (hsplit ▸ List.mem_cons_self)
  obtain ⟨_, c', hok, hwritten, hpos, -, htail⟩ := emits_writeQname h (padded c) (padded_inside c)
  have hpos : c'.pos = c.pos + (nameWire name).length := hpos
  have hbefore : (padded c).written = resize c.buf c.pos := by
    simp [Cursor.written, padded, resize, List.take_append]
  have hafter : (padded c).buf.drop c'.pos = c.buf.drop c'.pos := by
    have hgap : (List.replicate (c.pos - c.buf.length) (0 : UInt8)).drop
        (c'.pos - c.buf.length) = [] := by
      rw [List.drop_eq_nil_iff, List.length_replicate]
      omega
    rw [padded, List.drop_append, hgap, List.append_nil]
  have hbuf : c'.buf = resize c.buf c.pos ++ nameWire name ++ c.buf.drop c'.pos := by
    rw [← hbefore, ← hwritten, ← hafter, ← htail, Cursor.written, List.take_append_drop]
  rw [writeQname_padded hsplit hfirst, hok, ← hpos, ← hbuf]

theorem writeQname_fails {name : Text} (h : ¬ WritableName name) (c : BytePacketBuffer) :
    ∃ e c', writeQname name c = .error e c' := by
  obtain ⟨first, rest, hsplit⟩ := exists_first_label name
  rcases Nat.lt_or_ge 63 (Text.len first) with hlong | hshort
  · have hfirst : writeLabel first c = .error .labelTooLong c := by
      rw [writeLabel]
      simp only [hlong, if_true]
      rfl
    rw [writeQname, hsplit, List.forM_cons, bind_assoc, bind_apply, hfirst]
    exact ⟨_, _, rfl⟩
  · rw [writeQname_padded hsplit hshort]
    exact refuses_writeQname h (padded c) (padded_inside c)

theorem writeQname_ok_iff (name : Text) (c : BytePacketBuffer) :
    (∃ c', writeQname name c = .ok () c') ↔ WritableName name := by
  constructor
  · rintro ⟨c', hok⟩
    by_contra h
    obtain ⟨e, c'', herr⟩ := writeQname_fails h c
    rw [hok] at herr
    cases herr
  · exact fun h => ⟨_, writeQname_at h c⟩

/-! ### Hostnames of accounts -/

theorem split_of_no_dot {label : Text} (h : '.' ∉ label) : Text.split '.' label = [label] := by
  have hjoin : Text.join '.' [label] = label := by simp [Text.join]
  have hsplit := Text.split_join (List.cons_ne_nil label []) (List.forall_mem_singleton.mpr h)
  rwa [hjoin] at hsplit

theorem AsciiName.exists_first {d : Text} (h : AsciiName d) :
    ∃ c rest, c ≠ '.' ∧ d = c :: rest := by
  obtain ⟨labels, hne, hlabels, rfl⟩ := h
  obtain ⟨label, labels, rfl⟩ := List.exists_cons_of_ne_nil hne
  have hlabel := hlabels label List.mem_cons_self
  obtain ⟨c, rest, rfl⟩ := List.exists_cons_of_ne_nil hlabel.nonempty
  have hc : c ≠ '.' := fun heq => hlabel.no_dot (heq ▸ List.mem_cons_self)
  cases labels with
  | nil => exact ⟨c, _, hc, by rw [Text.join, List.intercalate_singleton]⟩
  | cons next labels =>
    exact ⟨c, _, hc, by rw [Text.join, List.intercalate_cons_cons]; rfl⟩

/-- A base domain made of labels has no dots around it. -/
theorem AsciiName.bareDomain {d : Text} (h : AsciiName d) :
    bareDomain d ≠ [] ∧ d.head? ≠ some '.' := by
  obtain ⟨c, rest, hc, rfl⟩ := h.exists_first
  constructor
  · have hstart : Text.trimStartMatches '.' (c :: rest) = c :: rest :=
      List.dropWhile_cons_of_neg (by simpa using hc)
    rw [Brdns.bareDomain, Text.trimMatches, hstart, Text.trimEndMatches, ne_eq,
      List.rdropWhile_eq_nil_iff]
    exact fun hall => hc (by simpa using hall c List.mem_cons_self)
  · simpa using hc

/-- The hostname of an account is a writable name exactly when the account number is short enough
for a label. -/
theorem writable_hostname_iff {a d : Text} (ha : '.' ∉ a) (hd : AsciiName d) :
    WritableName (a ++ '.' :: d) ↔ Text.len a ≤ 63 := by
  rw [WritableName, Text.split_append, split_of_no_dot ha, List.singleton_append,
    List.forall_mem_cons, and_iff_left]
  intro l hl
  have hlabel := asciiName_iff.mp hd l hl
  rw [Text.len_of_ascii hlabel.ascii]
  exact hlabel.short

/-- An accepted account number can be dialed, under any base domain, exactly when it has at most
63 characters: the hostname is written as a name, and names the account. -/
theorem hostname_dialed_iff (a d : Text) (ha : isValidAccountNumber a = true)
    (hd : AsciiName d) (c : BytePacketBuffer) :
    ((∃ c', writeQname (a ++ '.' :: d) c = .ok () c') ∧
      accountFromSni (a ++ '.' :: d) d = some a) ↔ Text.len a ≤ 63 := by
  obtain ⟨hne, hdot⟩ := valid_label ha
  obtain ⟨hbare, hlead⟩ := hd.bareDomain
  have haccount := accountFromSni_hostname hne hdot hbare hlead 0
  rw [List.replicate_zero, List.append_nil] at haccount
  rw [and_iff_left haccount, writeQname_ok_iff, writable_hostname_iff hdot hd]

theorem hostname_dialed_iff_longest :
    ∃ c', writeQname (List.replicate 63 'a' ++ '.' :: "dns.example.com".toList)
      BytePacketBuffer.new = .ok () c' :=
  ((hostname_dialed_iff (List.replicate 63 'a') "dns.example.com".toList (by decide +kernel)
    (by decide +kernel) BytePacketBuffer.new).mpr (by decide +kernel)).1

/-- The API accepts one character more than a label holds. -/
theorem longest_number_not_dialed :
    isValidAccountNumber (List.replicate 64 'a') = true ∧ AsciiName "dns.example.com".toList ∧
      writeQname (List.replicate 64 'a' ++ '.' :: "dns.example.com".toList)
        BytePacketBuffer.new = .error .labelTooLong BytePacketBuffer.new := by
  decide +kernel

/-! ### The root and names with a trailing dot -/

def nameText (labels : List Text) (trailingDot : Bool) : Text :=
  Text.join '.' labels ++ if trailingDot then ['.'] else []

theorem length_resize (buf : Bytes) (n : ℕ) : (resize buf n).length = n := by
  simp only [resize, List.length_append, List.length_take, List.length_replicate]
  omega

theorem nameWire_join {labels : List Text} (hne : labels ≠ []) (h : ∀ l ∈ labels, '.' ∉ l) :
    nameWire (Text.join '.' labels) = DnsName.wire (labels.map Text.bytes) := by
  rw [nameWire, Text.split_join hne h]

/-- An empty label is one more zero octet. -/
theorem nameWire_trailing (s : Text) :
    (nameWire (s ++ ['.'])).length = (nameWire s).length + 1 := by
  have hsplit : Text.split '.' (s ++ ['.']) = Text.split '.' s ++ [[]] := Text.split_append '.' s []
  simp [nameWire, hsplit, DnsName.wire, Text.bytes]

/-- The root and a trailing dot each cost a spare octet. -/
theorem length_nameWire {labels : List Text} (h : ∀ l ∈ labels, '.' ∉ l) (trailingDot : Bool) :
    (nameWire (nameText labels trailingDot)).length =
      (DnsName.wire (labels.map Text.bytes)).length + (if labels = [] then 1 else 0) +
        trailingDot.toNat := by
  have hjoin : (nameWire (Text.join '.' labels)).length =
      (DnsName.wire (labels.map Text.bytes)).length + if labels = [] then 1 else 0 := by
    split_ifs with hnil
    · subst hnil
      rfl
    · rw [nameWire_join hnil h, Nat.add_zero]
  cases trailingDot with
  | false => simpa [nameText] using hjoin
  | true => simpa [nameText, nameWire_trailing] using hjoin

section

variable [Text.UnicodeTables]

/-- Legal labels are written as their octets and one zero octet, and read back from where they
were written, exactly when there is a label and no trailing dot. -/
theorem name_covered_iff (labels : List Text) (h : ∀ l ∈ labels, LegalLabel l)
    (trailingDot : Bool) (c : BytePacketBuffer) :
    (∃ c', writeQname (nameText labels trailingDot) c = .ok () c' ∧
      c'.buf = resize c.buf c.pos ++ DnsName.wire (labels.map Text.bytes) ++
        c.buf.drop c'.pos ∧
      c'.pos = c.pos + (DnsName.wire (labels.map Text.bytes)).length ∧
      (do seek c.pos; readQname [] : BufferM Text) c' = .ok (Text.join '.' labels) c') ↔
      labels ≠ [] ∧ trailingDot = false := by
  have hdots : ∀ l ∈ labels, '.' ∉ l := fun l hl => (h l hl).no_dot
  constructor
  · rintro ⟨c', hok, -, hpos, -⟩
    have hwritable := (writeQname_ok_iff _ c).mp ⟨c', hok⟩
    rw [writeQname_at hwritable c] at hok
    cases hok
    have hlen := length_nameWire hdots trailingDot
    have hspare : (if labels = [] then 1 else 0) + trailingDot.toNat = 0 := by
      dsimp only at hpos
      omega
    cases trailingDot with
    | false =>
      refine ⟨fun hnil => ?_, rfl⟩
      simp [hnil] at hspare
    | true => simp at hspare
  · rintro ⟨hne, rfl⟩
    have htext : nameText labels false = Text.join '.' labels := List.append_nil _
    have hlegal : LegalName (Text.join '.' labels) := ⟨labels, hne, h, rfl⟩
    have hread := decodes_readQname hlegal (resize c.buf c.pos)
      (c.buf.drop (c.pos + (nameWire (Text.join '.' labels)).length))
    rw [length_resize] at hread
    rw [htext, ← nameWire_join hne hdots]
    exact ⟨_, writeQname_at hlegal.writable c, rfl, rfl, hread⟩

end

section

attribute [local instance] Text.asciiTables

/-- Past the end of a buffer. -/
theorem name_covered_iff_past_end :
    ∃ c', writeQname (nameText [['g'], ['i', 'o']] false) ⟨[7], 3⟩ = .ok () c' ∧
      c'.buf = resize [7] 3 ++ DnsName.wire ([['g'], ['i', 'o']].map Text.bytes) ++
        List.drop c'.pos [7] ∧
      c'.pos = 3 + (DnsName.wire ([['g'], ['i', 'o']].map Text.bytes)).length ∧
      (do seek 3; readQname [] : BufferM Text) c' = .ok (Text.join '.' [['g'], ['i', 'o']]) c' :=
  (name_covered_iff [['g'], ['i', 'o']] (by decide +kernel) false ⟨[7], 3⟩).mpr
    ⟨List.cons_ne_nil _ _, rfl⟩

/-- A trailing dot and the root: the reader stops one octet before the end of what was written. -/
theorem spare_octet_written :
    writeQname (nameText [['a']] true) ⟨[], 0⟩ = .ok () ⟨[1, 97, 0, 0], 4⟩ ∧
      (do seek 0; readQname [] : BufferM Text) ⟨[1, 97, 0, 0], 4⟩ =
        .ok ['a'] ⟨[1, 97, 0, 0], 3⟩ ∧
      DnsName.wire ([['a']].map Text.bytes) = [1, 97, 0] ∧
      writeQname (nameText [] false) ⟨[], 0⟩ = .ok () ⟨[0, 0], 2⟩ ∧
      (do seek 0; readQname [] : BufferM Text) ⟨[0, 0], 2⟩ = .ok [] ⟨[0, 0], 1⟩ ∧
      DnsName.wire [] = [0] := by
  decide +kernel

end

end Brdns
