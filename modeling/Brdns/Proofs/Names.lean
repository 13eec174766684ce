import Brdns.Lib.Ascii
import Brdns.Lib.DnsName
import Brdns.Lib.Word
import Brdns.Spec.Buffer

/-! `read_qname` against the expansion of a name: wherever the octets denote a name, the loop
returns its labels, and fails exactly when there are too many pointers on the way. -/

namespace Brdns

open Lib DnsName BytePacketBuffer

private theorem top_bits_table : ∀ n : Fin 256,
    (UInt8.ofNat n.val &&& 0xC0 = 0xC0 ↔ 192 ≤ n.val) ∧
      (192 ≤ n.val → ((UInt8.ofNat n.val).toUInt16 ^^^ 0xC0).toNat = n.val - 192) := by
  decide +kernel

/-- The test for a pointer octet. -/
theorem pointer_octet_iff (b : UInt8) : b &&& 0xC0 = 0xC0 ↔ 192 ≤ b.toNat := by
  simpa using (top_bits_table ⟨b.toNat, b.toNat_lt⟩).1

theorem pointerOffset_eq {hi : UInt8} (lo : UInt8) (h : 192 ≤ hi.toNat) :
    pointerOffset hi lo = (hi.toNat - 192) * 256 + lo.toNat := by
  have hx : (hi.toUInt16 ^^^ 0xC0).toNat = hi.toNat - 192 := by
    simpa using (top_bits_table ⟨hi.toNat, hi.toNat_lt⟩).2 h
  have hw : hi.toUInt16 ^^^ 0xC0 = (UInt8.ofNat (hi.toNat - 192)).toUInt16 := by
    apply UInt16.toNat_inj.mp
    have := hi.toNat_lt
    rw [hx, UInt8.toNat_toUInt16, UInt8.toNat_ofNat']
    omega
  have := hi.toNat_lt
  rw [pointerOffset, hw, Word.toNat_join16, UInt8.toNat_ofNat']
  omega

def joinFrom (delim : Text) : List Text → Text
  | [] => []
  | l :: ls => delim ++ l ++ joinFrom ['.'] ls

theorem joinFrom_nil (ls : List Text) : joinFrom [] ls = Text.join '.' ls := by
  induction ls with
  | nil => rfl
  | cons l ls ih =>
    cases ls with
    | nil => simp [joinFrom, Text.join]
    | cons l' ls =>
      simp only [joinFrom, List.nil_append, Text.join] at ih ⊢
      rw [List.intercalate_cons_cons, ← ih]
      simp

variable [Text.UnicodeTables]

def labelText (l : Bytes) : Text := Text.toLowercase (Text.fromUtf8Lossy l)

omit [Text.UnicodeTables] in
private theorem toLower_table : ∀ n : Fin 128, (Char.ofNat n.val).toLower =
    Char.ofNat (foldCase (UInt8.ofNat n.val)).toNat := by decide +kernel

/-- An ASCII label is read without regard to letter case. -/
theorem labelText_of_ascii {l : Bytes} (h : ∀ b ∈ l, b.toNat < 128) :
    labelText l = (l.map foldCase).map fun b => Char.ofNat b.toNat := by
  have hascii : Text.IsAscii (l.map fun b => Char.ofNat b.toNat) := by
    intro c hc
    obtain ⟨b, hb, rfl⟩ := List.mem_map.mp hc
    rw [Text.toNat_ascii _ (h b hb)]
    exact h b hb
  rw [labelText, Text.fromUtf8Lossy_of_ascii h, Text.toLowercase_of_ascii hascii,
    Text.toAsciiLowercase, List.map_map, List.map_map]
  refine List.map_congr_left fun b hb => ?_
  simpa using toLower_table ⟨b.toNat, h b hb⟩

section Loop

variable {msg : Bytes} {pos cur j : ℕ} {jumped : Bool} {delim out : Text}

theorem readQnameLoop_limit (h : maxJumps < j) :
    readQnameLoop ⟨msg, cur⟩ pos jumped delim out j = .error (.jumpLimit maxJumps) ⟨msg, cur⟩ := by
  rw [readQnameLoop, dif_pos h]

theorem readQnameLoop_root (hj : ¬ maxJumps < j) (hzero : msg[pos]? = some 0) :
    readQnameLoop ⟨msg, cur⟩ pos jumped delim out j =
      .ok out ⟨msg, if jumped then cur else pos + 1⟩ := by
  rw [readQnameLoop, dif_neg hj]
  split
  · next h => rw [hzero] at h; cases h
  · next h =>
    rw [hzero] at h
    cases h
    rfl

theorem readQnameLoop_label {len : UInt8} (hj : ¬ maxJumps < j) (hlen : msg[pos]? = some len)
    (hpos : 1 ≤ len.toNat) (hmax : len.toNat < 192) (hin : pos + 1 + len.toNat ≤ msg.length) :
    readQnameLoop ⟨msg, cur⟩ pos jumped delim out j =
      readQnameLoop ⟨msg, cur⟩ (pos + 1 + len.toNat) jumped ['.']
        (out ++ delim ++ labelText ((msg.drop (pos + 1)).take len.toNat)) j := by
  have htop : ¬ len &&& 0xC0 = 0xC0 := by
    rw [pointer_octet_iff]
    omega
  have hne : len ≠ 0 := by
    rintro rfl
    simp at hpos
  conv_lhs => rw [readQnameLoop, dif_neg hj]
  split
  · next h => rw [hlen] at h; cases h
  · next h =>
    rw [hlen] at h
    cases h
    rw [if_neg htop, if_neg hne, dif_neg (Nat.not_lt.mpr hin)]
    rfl

theorem readQnameLoop_pointer {hi lo : UInt8} (hj : ¬ maxJumps < j) (hhi : msg[pos]? = some hi)
    (htop : 192 ≤ hi.toNat) (hlo : msg[pos + 1]? = some lo) :
    readQnameLoop ⟨msg, cur⟩ pos jumped delim out j =
      readQnameLoop ⟨msg, if jumped then cur else pos + 2⟩ ((hi.toNat - 192) * 256 + lo.toNat)
        true delim out (j + 1) := by
  conv_lhs => rw [readQnameLoop, dif_neg hj]
  split
  · next h => rw [hhi] at h; cases h
  · next h =>
    rw [hhi] at h
    cases h
    rw [if_pos ((pointer_octet_iff hi).mpr htop), ← pointerOffset_eq lo htop]
    simp only [hlo]

/-- Induction on the octets gone through: a label appends its text, a pointer uses up a jump. -/
theorem readQnameLoop_unfolds {jumps stop : ℕ} {labels : List Bytes}
    (h : Unfolds msg pos jumps labels stop) (hj : j + jumps ≤ maxJumps) :
    readQnameLoop ⟨msg, cur⟩ pos jumped delim out j =
      .ok (out ++ joinFrom delim (labels.map labelText))
        ⟨msg, if jumped then cur else stop⟩ := by
  induction h generalizing cur jumped delim out j with
  | root hzero =>
    rw [readQnameLoop_root (by omega) hzero]
    simp [joinFrom]
  | label hlen hpos hmax hin _ ih =>
    rw [readQnameLoop_label (by omega) hlen hpos hmax hin, ih hj]
    simp [joinFrom]
  | pointer hhi htop hlo _ ih =>
    rw [readQnameLoop_pointer (by omega) hhi htop hlo, ih (by omega)]
    simp

theorem readQnameLoop_expands {jumps stop : ℕ} {labels : List Bytes}
    (h : Expands msg pos jumps labels stop) (hj : j + jumps ≤ maxJumps) :
    readQnameLoop ⟨msg, cur⟩ pos jumped delim out j =
      .ok (out ++ joinFrom delim (labels.map labelText))
        ⟨msg, if jumped then cur else stop⟩ :=
  readQnameLoop_unfolds h.unfolds hj

/-- More pointers than allowed make the loop fail. -/
theorem readQnameLoop_too_many {jumps stop : ℕ} {labels : List Bytes}
    (h : Expands msg pos jumps labels stop) (hj : maxJumps < j + jumps) :
    ∃ c, readQnameLoop ⟨msg, cur⟩ pos jumped delim out j = .error (.jumpLimit maxJumps) c := by
  by_cases hlim : maxJumps < j
  · exact ⟨_, readQnameLoop_limit hlim⟩
  induction h generalizing cur jumped delim out j with
  | root _ => omega
  | label hlen hpos hmax hin _ ih =>
    rw [readQnameLoop_label hlim hlen hpos (by omega) hin]
    exact ih hj hlim
  | pointer hhi htop hlo _ ih =>
    rw [readQnameLoop_pointer hlim hhi htop hlo]
    by_cases hlim' : maxJumps < j + 1
    · exact ⟨_, readQnameLoop_limit hlim'⟩
    · exact ih (by omega) hlim'

end Loop

/-- A successful loop has gone through a name, and has not used up its jumps on it. -/
theorem unfolds_of_readQnameLoop (self : BytePacketBuffer) (pos : ℕ) (jumped : Bool)
    (delim out : Text) (j : ℕ) {name : Text} {c : BytePacketBuffer} :
    readQnameLoop self pos jumped delim out j = .ok name c →
      ∃ jumps labels stop, Unfolds self.buf pos jumps labels stop ∧ j + jumps ≤ maxJumps := by
  fun_induction readQnameLoop self pos jumped delim out j with
  | case1 | case2 | case3 | case6 => rintro ⟨⟩
  | case4 self pos jumped delim out j hj len hlen htop moved lo hlo ih =>
    intro h
    rw [pointer_octet_iff] at htop
    obtain ⟨jumps, labels, stop, hrest, hle⟩ := ih h
    rw [pointerOffset_eq lo htop] at hrest
    exact ⟨_, _, _, .pointer hlen htop hlo hrest, by omega⟩
  | case5 self pos jumped delim out j hj hzero htop =>
    exact fun _ => ⟨0, [], _, .root hzero, by omega⟩
  | case7 self pos jumped delim out j hj len hlen htop hne hin strBuffer ih =>
    intro h
    rw [pointer_octet_iff] at htop
    have hpos : 1 ≤ len.toNat := by
      rw [Nat.one_le_iff_ne_zero]
      exact fun h0 => hne (UInt8.toNat_inj.mp h0)
    obtain ⟨jumps, labels, stop, hrest, hle⟩ := ih h
    exact ⟨_, _, _, .label hlen hpos (by omega) (by omega) hrest, hle⟩

/-- `read_qname` is exact: it succeeds on the names with few enough pointers, and on no others,
with their labels and with the cursor at their end in place. -/
theorem readQname_ok_iff {msg : Bytes} {pos : ℕ} {name : Text} {c : BytePacketBuffer} :
    readQname [] ⟨msg, pos⟩ = .ok name c ↔
      ∃ jumps labels stop, Unfolds msg pos jumps labels stop ∧ jumps ≤ maxJumps ∧
        name = Text.join '.' (labels.map labelText) ∧ c = ⟨msg, stop⟩ := by
  have hval {jumps stop : ℕ} {labels : List Bytes} (h : Unfolds msg pos jumps labels stop)
      (hle : jumps ≤ maxJumps) : readQname [] ⟨msg, pos⟩ =
        .ok (Text.join '.' (labels.map labelText)) ⟨msg, stop⟩ := by
    rw [readQname, readQnameLoop_unfolds h (by omega), List.nil_append, joinFrom_nil]
    rfl
  constructor
  · intro hok
    obtain ⟨jumps, labels, stop, h, hle⟩ := unfolds_of_readQnameLoop _ _ _ _ _ _ hok
    rw [Nat.zero_add] at hle
    rw [hval h hle] at hok
    cases hok
    exact ⟨jumps, labels, stop, h, hle, rfl, rfl⟩
  · rintro ⟨jumps, labels, stop, h, hle, rfl, rfl⟩
    exact hval h hle

/-- Whatever the octets are, a name that was read holds no ASCII capital. -/
theorem readQnameLoop_not_upper (self : BytePacketBuffer) (pos : ℕ) (jumped : Bool)
    (delim out : Text) (j : ℕ) (hdelim : ∀ d ∈ delim, d.isUpper = false)
    (hout : ∀ d ∈ out, d.isUpper = false) {name : Text} {c : BytePacketBuffer} :
    readQnameLoop self pos jumped delim out j = .ok name c → ∀ d ∈ name, d.isUpper = false := by
  fun_induction readQnameLoop self pos jumped delim out j with
  | case1 | case2 | case3 | case6 => rintro ⟨⟩
  | case4 =>
    rename_i ih
    exact ih hdelim hout
  | case5 =>
    rintro ⟨⟩
    exact hout
  | case7 =>
    rename_i ih
    refine ih (by simp) fun d hd => ?_
    rcases List.mem_append.mp hd with hd | hd
    · rcases List.mem_append.mp hd with hd | hd
      · exact hout d hd
      · exact hdelim d hd
    · exact Text.toLowercase_not_upper _ d hd

theorem readQname_not_upper {self c : BytePacketBuffer} {name : Text}
    (h : readQname [] self = .ok name c) : ∀ d ∈ name, d.isUpper = false :=
  readQnameLoop_not_upper self self.pos false [] [] 0 (by simp) (by simp) h

/-- The name a successful `read_qname` returns where the octets denote one. -/
theorem readQname_of_expands {msg : Bytes} {pos jumps stop : ℕ} {labels : List Bytes}
    {name : Text} {c : BytePacketBuffer} (h : Expands msg pos jumps labels stop)
    (hok : readQname [] ⟨msg, pos⟩ = .ok name c) :
    name = Text.join '.' (labels.map labelText) := by
  rcases Nat.lt_or_ge maxJumps jumps with hlt | hle
  · have hmany : ∃ c', readQname [] ⟨msg, pos⟩ = .error (.jumpLimit maxJumps) c' :=
      readQnameLoop_too_many h (by omega)
    obtain ⟨c', hc'⟩ := hmany
    rw [hc'] at hok
    cases hok
  · rw [readQname, readQnameLoop_expands h (by omega)] at hok
    cases hok
    rw [List.nil_append, joinFrom_nil]

end Brdns
