import Mathlib
import Brdns.Lib.Text

/-! ASCII text: on it the Unicode operations work one octet at a time, and a name put together
from ASCII labels comes apart again. -/

namespace Lib.Text

def IsAscii (s : Text) : Prop := ∀ c ∈ s, c.toNat < 128

-- the instance for lists, not one that runs through all characters
instance (s : Text) : Decidable (IsAscii s) := List.decidableBAll _ s

theorem IsAscii.tail {c : Char} {s : Text} (h : IsAscii (c :: s)) : IsAscii s :=
  fun d hd => h d (List.mem_cons_of_mem c hd)

theorem toNat_ascii : ∀ n < 128, (Char.ofNat n).toNat = n := by decide +kernel

theorem ascii_byte {c : Char} (h : c.toNat < 128) : (UInt8.ofNat c.toNat).toNat = c.toNat := by
  rw [UInt8.toNat_ofNat']
  omega

theorem utf8EncodeChar_of_ascii {c : Char} (h : c.toNat < 128) :
    String.utf8EncodeChar c = [UInt8.ofNat c.toNat] := if_pos (Nat.le_of_lt_succ h)

theorem bytes_of_ascii {s : Text} (h : IsAscii s) :
    bytes s = s.map fun c => UInt8.ofNat c.toNat := by
  induction s with
  | nil => rfl
  | cons c s ih =>
    have hone := utf8EncodeChar_of_ascii (h c List.mem_cons_self)
    rw [bytes, List.flatMap_cons, hone, List.map_cons, ← ih h.tail]
    rfl

/-- ASCII octets read as characters and written again. -/
theorem bytes_of_octets {l : List UInt8} (h : ∀ b ∈ l, b.toNat < 128) :
    bytes (l.map fun b => Char.ofNat b.toNat) = l := by
  have hchar : ∀ b ∈ l, (Char.ofNat b.toNat).toNat = b.toNat :=
    fun b hb => toNat_ascii _ (h b hb)
  have hascii : IsAscii (l.map fun b => Char.ofNat b.toNat) := by
    intro c hc
    obtain ⟨b, hb, rfl⟩ := List.mem_map.mp hc
    rw [hchar b hb]
    exact h b hb
  rw [bytes_of_ascii hascii, List.map_map]
  conv_rhs => rw [← List.map_id l]
  apply List.map_congr_left
  intro b hb
  rw [Function.comp_apply, hchar b hb, UInt8.ofNat_toNat, id]

theorem len_of_ascii {s : Text} (h : IsAscii s) : len s = s.length := by
  rw [len, bytes_of_ascii h, List.length_map]

theorem fromUtf8Lossy_of_ascii {l : List UInt8} (h : ∀ b ∈ l, b.toNat < 128) :
    fromUtf8Lossy l = l.map fun b => Char.ofNat b.toNat := by
  induction l with
  | nil => rfl
  | cons b l ih =>
    have hb : b < 0x80 := h b List.mem_cons_self
    rw [List.map_cons, ← ih fun b' hb' => h b' (List.mem_cons_of_mem b hb')]
    conv_lhs => unfold fromUtf8Lossy
    exact if_pos hb

/-- ASCII text survives its UTF-8 form. -/
theorem fromUtf8Lossy_bytes {s : Text} (h : IsAscii s) : fromUtf8Lossy (bytes s) = s := by
  rw [bytes_of_ascii h, fromUtf8Lossy_of_ascii]
  · rw [List.map_map]
    conv_rhs => rw [← List.map_id s]
    refine List.map_congr_left fun c hc => ?_
    rw [Function.comp_apply, ascii_byte (h c hc), Char.ofNat_toNat, id_eq]
  · intro b hb
    obtain ⟨c, hc, rfl⟩ := List.mem_map.mp hb
    rw [ascii_byte (h c hc)]
    exact h c hc

/-! ### Octets outside ASCII -/

theorem isContinuation_toNat {b : UInt8} (h : isContinuation b = true) : 128 ≤ b.toNat := by
  have hall : ∀ n < 256, isContinuation (UInt8.ofNat n) = true → 128 ≤ n := by decide +kernel
  have hb := hall b.toNat (UInt8.toNat_lt b)
  rw [UInt8.ofNat_toNat] at hb
  exact hb h

theorem validSecondOf3_toNat {b₀ b₁ : UInt8} (h : validSecondOf3 b₀ b₁ = true) :
    128 ≤ b₁.toNat ∧ 128 ≤ b₀.toNat % 16 * 4096 + low6 b₁ * 64 := by
  simp only [validSecondOf3, Bool.or_eq_true, Bool.and_eq_true, beq_iff_eq, decide_eq_true_eq,
    UInt8.le_iff_toNat_le] at h
  rw [low6]
  rcases h with ((⟨rfl, h⟩ | ⟨h, h₁⟩) | ⟨rfl, h⟩) | ⟨h, h₁⟩
  · have h : 160 ≤ b₁.toNat ∧ b₁.toNat ≤ 191 := h
    simp only [UInt8.reduceToNat]
    omega
  · have h : 225 ≤ b₀.toNat ∧ b₀.toNat ≤ 236 := h
    have h₁ := isContinuation_toNat h₁
    omega
  · have h : 128 ≤ b₁.toNat ∧ b₁.toNat ≤ 159 := h
    simp only [UInt8.reduceToNat]
    omega
  · have h : 238 ≤ b₀.toNat ∧ b₀.toNat ≤ 239 := h
    have h₁ := isContinuation_toNat h₁
    omega

theorem validSecondOf4_toNat {b₀ b₁ : UInt8} (h : validSecondOf4 b₀ b₁ = true) :
    128 ≤ b₁.toNat ∧ 128 ≤ b₀.toNat % 8 * 262144 + low6 b₁ * 4096 := by
  simp only [validSecondOf4, Bool.or_eq_true, Bool.and_eq_true, beq_iff_eq, decide_eq_true_eq,
    UInt8.le_iff_toNat_le] at h
  rw [low6]
  rcases h with (⟨rfl, h⟩ | ⟨h, h₁⟩) | ⟨rfl, h⟩
  · have h : 144 ≤ b₁.toNat ∧ b₁.toNat ≤ 191 := h
    simp only [UInt8.reduceToNat]
    omega
  · have h : 241 ≤ b₀.toNat ∧ b₀.toNat ≤ 243 := h
    have h₁ := isContinuation_toNat h₁
    omega
  · have h : 128 ≤ b₁.toNat ∧ b₁.toNat ≤ 143 := h
    simp only [UInt8.reduceToNat]
    omega

theorem ofNat_high {n : ℕ} (hn : 128 ≤ n) :
    (Char.ofNat n).toNat = 0 ∨ 128 ≤ (Char.ofNat n).toNat := by
  rw [Char.toNat_ofNat]
  split_ifs
  · exact Or.inr hn
  · exact Or.inl rfl

theorem utf8EncodeChar_high {c : Char} (h : 128 ≤ c.toNat) :
    ∀ b ∈ String.utf8EncodeChar c, 128 ≤ b.toNat := by
  have hhigh : ¬ c.val.toNat ≤ 0x7f := Nat.not_le.mpr h
  simp only [String.utf8EncodeChar, if_neg hhigh]
  split_ifs <;> simp only [List.forall_mem_cons, UInt8.toNat_ofNat'] <;> simp <;> omega

/-- The octets `b :: l` begin with a group outside ASCII that is read as one such character, or
as the replacement character. -/
def ReadsGroup (b : UInt8) (l : List UInt8) : Prop :=
  ∃ c p r, l = p ++ r ∧ (∀ b ∈ p, 128 ≤ b.toNat) ∧
    fromUtf8Lossy (b :: l) = c :: fromUtf8Lossy r ∧ (c.toNat = 0 ∨ 128 ≤ c.toNat)

theorem ReadsGroup.invalid {b : UInt8} {l p r : List UInt8} (hl : l = p ++ r)
    (hp : ∀ b ∈ p, 128 ≤ b.toNat)
    (hread : fromUtf8Lossy (b :: l) = replacement :: fromUtf8Lossy r) : ReadsGroup b l := ⟨replacement, p, r, hl, hp, hread, by decide⟩

theorem readsGroup_two {b : UInt8} (hlt : ¬ b < 0x80) (h2 : (0xC2 ≤ b && b ≤ 0xDF) = true)
    (l : List UInt8) : ReadsGroup b l := by
  have hread := fromUtf8Lossy.eq_def (b :: l)
  simp only [if_neg hlt, if_pos h2] at hread
  rcases l with _ | ⟨b₁, l⟩
  · exact .invalid (List.nil_append []).symm (by simp) hread
  · dsimp only at hread
    split_ifs at hread with h1
    · refine ⟨_, [b₁], l, rfl, by simpa using isContinuation_toNat h1, hread, ofNat_high ?_⟩
      rw [Bool.and_eq_true, decide_eq_true_eq, decide_eq_true_eq] at h2
      have h2 : 194 ≤ b.toNat ∧ b.toNat ≤ 223 := h2
      omega
    · exact .invalid (List.nil_append _).symm (by simp) hread

theorem readsGroup_three {b : UInt8} (hlt : ¬ b < 0x80) (h2 : ¬ (0xC2 ≤ b && b ≤ 0xDF) = true)
    (h3 : (0xE0 ≤ b && b ≤ 0xEF) = true) (l : List UInt8) : ReadsGroup b l := by
  have hread := fromUtf8Lossy.eq_def (b :: l)
  simp only [if_neg hlt, if_neg h2, if_pos h3] at hread
  rcases l with _ | ⟨b₁, l⟩
  · exact .invalid (List.nil_append []).symm (by simp) hread
  dsimp only at hread
  split_ifs at hread with h1
  swap
  · exact .invalid (List.nil_append _).symm (by simp) hread
  obtain ⟨hb₁, hn⟩ := validSecondOf3_toNat h1
  rcases l with _ | ⟨b₂, l⟩
  · exact .invalid (p := [b₁]) rfl (by simpa using hb₁) hread
  dsimp only at hread
  split_ifs at hread with hc
  · exact ⟨_, [b₁, b₂], l, rfl, by simpa using ⟨hb₁, isContinuation_toNat hc⟩, hread,
      ofNat_high (hn.trans (Nat.le_add_right _ _))⟩
  · exact .invalid (p := [b₁]) rfl (by simpa using hb₁) hread

theorem readsGroup_four {b : UInt8} (hlt : ¬ b < 0x80) (h2 : ¬ (0xC2 ≤ b && b ≤ 0xDF) = true)
    (h3 : ¬ (0xE0 ≤ b && b ≤ 0xEF) = true) (h4 : (0xF0 ≤ b && b ≤ 0xF4) = true)
    (l : List UInt8) : ReadsGroup b l := by
  have hread := fromUtf8Lossy.eq_def (b :: l)
  simp only [if_neg hlt, if_neg h2, if_neg h3, if_pos h4] at hread
  rcases l with _ | ⟨b₁, l⟩
  · exact .invalid (List.nil_append []).symm (by simp) hread
  dsimp only at hread
  split_ifs at hread with h1
  swap
  · exact .invalid (List.nil_append _).symm (by simp) hread
  obtain ⟨hb₁, hn⟩ := validSecondOf4_toNat h1
  rcases l with _ | ⟨b₂, l⟩
  · exact .invalid (p := [b₁]) rfl (by simpa using hb₁) hread
  dsimp only at hread
  split_ifs at hread with hc
  swap
  · exact .invalid (p := [b₁]) rfl (by simpa using hb₁) hread
  have hb₂ := isContinuation_toNat hc
  rcases l with _ | ⟨b₃, l⟩
  · exact .invalid (p := [b₁, b₂]) rfl (by simpa using ⟨hb₁, hb₂⟩) hread
  dsimp only at hread
  split_ifs at hread with hc'
  · exact ⟨_, [b₁, b₂, b₃], l, rfl, by simpa using ⟨hb₁, hb₂, isContinuation_toNat hc'⟩, hread,
      ofNat_high ((hn.trans (Nat.le_add_right _ _)).trans (Nat.le_add_right _ _))⟩
  · exact .invalid (p := [b₁, b₂]) rfl (by simpa using ⟨hb₁, hb₂⟩) hread

/-- Octets outside ASCII are read in groups, each for one character outside ASCII. -/
theorem fromUtf8Lossy_high {b : UInt8} (hb : 128 ≤ b.toNat) (l : List UInt8) :
    ∃ c p r, l = p ++ r ∧ (∀ b ∈ p, 128 ≤ b.toNat) ∧
      fromUtf8Lossy (b :: l) = c :: fromUtf8Lossy r ∧ (c.toNat = 0 ∨ 128 ≤ c.toNat) := by
  have hlt : ¬ b < 0x80 := by
    rw [UInt8.lt_iff_toNat_lt, not_lt]
    exact hb
  by_cases h2 : (0xC2 ≤ b && b ≤ 0xDF) = true
  · exact readsGroup_two hlt h2 l
  by_cases h3 : (0xE0 ≤ b && b ≤ 0xEF) = true
  · exact readsGroup_three hlt h2 h3 l
  by_cases h4 : (0xF0 ≤ b && b ≤ 0xF4) = true
  · exact readsGroup_four hlt h2 h3 h4 l
  have hread := fromUtf8Lossy.eq_def (b :: l)
  simp only [if_neg hlt, if_neg h2, if_neg h3, if_neg h4] at hread
  exact ReadsGroup.invalid (List.nil_append l).symm (by simp) hread

/-- A lossy reading has as many of an ASCII character as the octets have of its code. -/
theorem count_fromUtf8Lossy {c : Char} (hpos : 0 < c.toNat) (hc : c.toNat < 128)
    (l : List UInt8) : (fromUtf8Lossy l).count c = l.count (UInt8.ofNat c.toNat) := by
  induction hn : l.length using Nat.strong_induction_on generalizing l with
  | _ n ih =>
    subst hn
    rcases l with _ | ⟨b, l⟩
    · rfl
    by_cases hb : b.toNat < 128
    · have hread : fromUtf8Lossy (b :: l) = Char.ofNat b.toNat :: fromUtf8Lossy l := by
        conv_lhs => unfold fromUtf8Lossy
        exact if_pos hb
      have hsame : (Char.ofNat b.toNat == c) = (b == UInt8.ofNat c.toNat) := by
        rw [Bool.eq_iff_iff, beq_iff_eq, beq_iff_eq]
        constructor
        · rintro rfl
          rw [toNat_ascii _ hb, UInt8.ofNat_toNat]
        · rintro rfl
          rw [ascii_byte hc, Char.ofNat_toNat]
      rw [hread, List.count_cons, List.count_cons, hsame, ih _ (Nat.lt_succ_self _) l rfl]
    · obtain ⟨d, p, r, rfl, hp, hread, hd⟩ := fromUtf8Lossy_high (Nat.le_of_not_lt hb) l
      have hhigh : ∀ b' ∈ b :: p, 128 ≤ b'.toNat :=
        List.forall_mem_cons.mpr ⟨Nat.le_of_not_lt hb, hp⟩
      have hdc : d ≠ c := by
        rintro rfl
        omega
      have hnone : (b :: p).count (UInt8.ofNat c.toNat) = 0 := by
        rw [List.count_eq_zero]
        intro hmem
        have hle := hhigh _ hmem
        rw [ascii_byte hc] at hle
        omega
      have hlen : r.length < (b :: (p ++ r)).length := by
        rw [List.length_cons, List.length_append]
        omega
      rw [hread, List.count_cons_of_ne hdc, ih _ hlen r rfl, ← List.cons_append,
        List.count_append, hnone, Nat.zero_add]

/-! ### Letter case -/

theorem not_upper_of_not_ascii {c : Char} (h : 128 ≤ c.toNat) : c.isUpper = false := by
  rw [Char.isUpper, decide_eq_false_iff_not]
  rintro ⟨-, hz⟩
  have hz : c.toNat ≤ 90 := hz
  omega

theorem not_lower_of_not_ascii {c : Char} (h : 128 ≤ c.toNat) : c.isLower = false := by
  rw [Char.isLower, Bool.and_eq_false_iff, decide_eq_false_iff_not (p := c.val ≤ _)]
  have hz : ¬ c.toNat ≤ 122 := by omega
  exact Or.inr hz

theorem not_digit_of_not_ascii {c : Char} (h : 128 ≤ c.toNat) : c.isDigit = false := by
  rw [Char.isDigit, Bool.and_eq_false_iff, decide_eq_false_iff_not (p := c.val ≤ _)]
  have hz : ¬ c.toNat ≤ 57 := by omega
  exact Or.inr hz

/-- Tables without a letter outside ASCII. -/
@[reducible] def asciiTables : UnicodeTables where
  lower c := [c]
  cased c := c.isAlpha
  caseIgnorable _ := false
  lower_not_upper _ hc _ hd := List.mem_singleton.mp hd ▸ not_upper_of_not_ascii hc

section Lowercase

variable [UnicodeTables]

theorem toLowercaseFrom_of_ascii (before : Text) {s : Text} (h : IsAscii s) :
    toLowercaseFrom before s = toAsciiLowercase s := by
  induction s generalizing before with
  | nil => rfl
  | cons c s ih =>
    have hc := h c List.mem_cons_self
    have hsigma : c ≠ 'Σ' := by
      rintro rfl
      exact absurd hc (by decide)
    rw [toLowercaseFrom, if_neg hsigma, charToLowercase, if_pos hc, ih _ h.tail]
    rfl

/-- On ASCII text the two notions of lowercase agree. -/
theorem toLowercase_of_ascii {s : Text} (h : IsAscii s) : toLowercase s = toAsciiLowercase s :=
  toLowercaseFrom_of_ascii [] h

theorem charToLowercase_not_upper (c : Char) : ∀ d ∈ charToLowercase c, d.isUpper = false := by
  rw [charToLowercase]
  split_ifs with h
  · simp
  · exact UnicodeTables.lower_not_upper c (Nat.le_of_not_lt h)

/-- Lowercased text holds no ASCII capital. -/
theorem toLowercase_not_upper (s : Text) : ∀ d ∈ toLowercase s, d.isUpper = false := by
  suffices h : ∀ before, ∀ d ∈ toLowercaseFrom before s, d.isUpper = false from h []
  induction s with
  | nil => simp [toLowercaseFrom]
  | cons c s ih =>
    intro before d hd
    rw [toLowercaseFrom, List.mem_append] at hd
    rcases hd with hd | hd
    · split_ifs at hd
      · rw [List.mem_singleton.mp hd, mapUppercaseSigma]
        split_ifs <;> decide
      · exact charToLowercase_not_upper c d hd
    · exact ih _ d hd

end Lowercase

theorem toAsciiLowercase_of_not_upper {s : Text} (h : ∀ c ∈ s, c.isUpper = false) :
    toAsciiLowercase s = s := by
  rw [toAsciiLowercase]
  conv_rhs => rw [← List.map_id s]
  exact List.map_congr_left fun c hc =>
    Char.toLower_eq_of_not_isUpper (Bool.not_eq_true _ ▸ h c hc)

/-- Lowercasing neither makes nor removes a character that is no letter. -/
theorem toLower_eq_iff {c sep : Char} (hsep : sep.isAlpha = false) : c.toLower = sep ↔ c = sep := by
  by_cases hc : c.isUpper
  · have hal : c.isAlpha = true := by rw [Char.isAlpha, hc, Bool.true_or]
    constructor
    · rintro rfl
      rw [Char.isAlpha_toLower_eq_isAlpha, hal] at hsep
      cases hsep
    · rintro rfl
      rw [hal] at hsep
      cases hsep
  · rw [Char.toLower_eq_of_not_isUpper hc]

theorem toAsciiLowercase_append (s t : Text) :
    toAsciiLowercase (s ++ t) = toAsciiLowercase s ++ toAsciiLowercase t := List.map_append

theorem trimStartMatches_toAsciiLowercase {c : Char} (hc : c.isAlpha = false) (s : Text) :
    trimStartMatches c (toAsciiLowercase s) = toAsciiLowercase (trimStartMatches c s) := by
  have hsame : ((· == c) ∘ Char.toLower) = (· == c) := by
    funext d
    rw [Function.comp_apply, Bool.eq_iff_iff, beq_iff_eq, beq_iff_eq, toLower_eq_iff hc]
  rw [trimStartMatches, toAsciiLowercase, List.dropWhile_map, hsame]
  rfl

theorem trimEndMatches_toAsciiLowercase {c : Char} (hc : c.isAlpha = false) (s : Text) :
    trimEndMatches c (toAsciiLowercase s) = toAsciiLowercase (trimEndMatches c s) := by
  have hrev : (toAsciiLowercase s).reverse = toAsciiLowercase s.reverse := List.map_reverse.symm
  have htrim := trimStartMatches_toAsciiLowercase hc s.reverse
  rw [trimStartMatches] at htrim
  rw [trimEndMatches, List.rdropWhile, hrev, htrim, toAsciiLowercase, ← List.map_reverse]
  rfl

theorem trimMatches_toAsciiLowercase {c : Char} (hc : c.isAlpha = false) (s : Text) :
    trimMatches c (toAsciiLowercase s) = toAsciiLowercase (trimMatches c s) := by
  rw [trimMatches, trimStartMatches_toAsciiLowercase hc, trimEndMatches_toAsciiLowercase hc]
  rfl

/-- Equal up to ASCII letter case. -/
def SameCase (s t : Text) : Prop := toAsciiLowercase s = toAsciiLowercase t

instance (s t : Text) : Decidable (SameCase s t) := decEq (toAsciiLowercase s) (toAsciiLowercase t)

/-! ### Joining and splitting -/

theorem split_toAsciiLowercase {sep : Char} (hsep : sep.isAlpha = false) (s : Text) :
    split sep (toAsciiLowercase s) = (split sep s).map toAsciiLowercase := by
  unfold split
  induction s with
  | nil => rfl
  | cons c s ih =>
    have hcons : toAsciiLowercase (c :: s) = c.toLower :: toAsciiLowercase s := rfl
    rw [hcons, List.splitOn_cons_eq_if_modifyHead, List.splitOn_cons_eq_if_modifyHead, ih]
    obtain ⟨part, parts, hparts⟩ := List.exists_cons_of_ne_nil (List.splitOn_ne_nil sep s)
    rw [hparts]
    simp only [beq_iff_eq, toLower_eq_iff hsep]
    split_ifs <;> rfl

theorem split_join {sep : Char} {parts : List Text} (hne : parts ≠ [])
    (h : ∀ p ∈ parts, sep ∉ p) : split sep (join sep parts) = parts :=
  List.splitOn_intercalate sep h hne

theorem join_split (sep : Char) (s : Text) : join sep (split sep s) = s :=
  List.intercalate_splitOn sep

theorem split_append (sep : Char) (s t : Text) :
    split sep (s ++ sep :: t) = split sep s ++ split sep t := List.splitOn_append_cons_self s t

/-- The parts of a split do not contain the separator. -/
theorem not_mem_of_mem_split {sep : Char} {s p : Text} (hp : p ∈ split sep s) : sep ∉ p := by
  unfold split at hp
  induction s generalizing p with
  | nil =>
    rw [List.mem_singleton.mp hp]
    exact List.not_mem_nil
  | cons c s ih =>
    rw [List.splitOn_cons_eq_if_modifyHead] at hp
    split_ifs at hp with hc
    · rcases List.mem_cons.mp hp with rfl | hp
      · exact List.not_mem_nil
      · exact ih hp
    · obtain ⟨q, qs, hq⟩ := List.exists_cons_of_ne_nil (List.splitOn_ne_nil sep s)
      rw [hq, List.modifyHead_cons] at hp
      rcases List.mem_cons.mp hp with rfl | hp
      · rw [List.mem_cons, not_or]
        exact ⟨fun heq => hc (by simp [heq]), ih (hq ▸ List.mem_cons_self)⟩
      · exact ih (hq ▸ List.mem_cons_of_mem q hp)

/-- The pieces of a joined text are those of its parts. -/
theorem forall_split_join {sep : Char} {P : Text → Prop} (hnil : P []) (parts : List Text) :
    (∀ p ∈ split sep (join sep parts), P p) ↔ ∀ part ∈ parts, ∀ p ∈ split sep part, P p := by
  induction parts with
  | nil => simpa [join, split] using hnil
  | cons part parts ih =>
    cases parts with
    | nil => simp [join]
    | cons part' parts =>
      have hcons : join sep (part :: part' :: parts) =
          part ++ sep :: join sep (part' :: parts) := by
        rw [join, List.intercalate_cons_cons, ← join]
        simp
      rw [hcons, split_append, List.forall_mem_append, ih]
      simp only [List.forall_mem_cons]

theorem mem_join_of_mem {sep c : Char} {parts : List Text} {p : Text} (hp : p ∈ parts)
    (hc : c ∈ p) : c ∈ join sep parts := by
  induction parts with
  | nil => cases hp
  | cons q parts ih =>
    cases parts with
    | nil =>
      rw [List.mem_singleton] at hp
      simpa [join, ← hp] using hc
    | cons q' parts =>
      rw [join, List.intercalate_cons_cons, List.mem_append, List.mem_append]
      rcases List.mem_cons.mp hp with rfl | hp
      · exact .inl (.inl hc)
      · exact .inr (ih hp)

/-- Joining in two runs. -/
theorem join_append {sep : Char} {parts parts' : List Text} (hne : parts ≠ [])
    (hne' : parts' ≠ []) :
    join sep (parts ++ parts') = join sep parts ++ sep :: join sep parts' := by
  obtain ⟨part', rest', rfl⟩ := List.exists_cons_of_ne_nil hne'
  induction parts with
  | nil => exact absurd rfl hne
  | cons part parts ih =>
    cases parts with
    | nil => simp [join]
    | cons part₁ parts =>
      have hrest := ih (List.cons_ne_nil _ _)
      simp only [join, List.cons_append, List.intercalate_cons_cons, List.append_assoc] at hrest ⊢
      rw [hrest]

/-- The parts of one text are the last parts of another exactly when it is the other or ends it
behind a separator. -/
theorem split_suffix_iff {sep : Char} {s t : Text} :
    split sep s <:+ split sep t ↔ t = s ∨ sep :: s <:+ t := by
  constructor
  · rintro ⟨parts, hparts⟩
    have hjoin := congrArg (join sep) hparts
    rw [join_split] at hjoin
    rcases eq_or_ne parts [] with rfl | hne
    · left
      rw [List.nil_append, join_split] at hjoin
      exact hjoin.symm
    · right
      have hne' : split sep s ≠ [] := List.splitOn_ne_nil sep s
      rw [join_append hne hne', join_split] at hjoin
      exact ⟨_, hjoin⟩
  · rintro (rfl | ⟨before, rfl⟩)
    · exact List.suffix_rfl
    · rw [split_append]
      exact List.suffix_append _ _

theorem stripPrefix_eq_some {pat s rest : Text} :
    stripPrefix pat s = some rest ↔ s = pat ++ rest := by
  rw [stripPrefix, List.dropPrefix?_eq_some_iff]
  simp

theorem stripPrefix_eq_none {pat s : Text} : stripPrefix pat s = none ↔ ¬ pat <+: s := by
  rw [Option.eq_none_iff_forall_ne_some]
  constructor
  · rintro h ⟨rest, rfl⟩
    exact h rest (stripPrefix_eq_some.mpr rfl)
  · intro h rest hrest
    exact h ⟨rest, (stripPrefix_eq_some.mp hrest).symm⟩

theorem trimStartMatchesStr_eq_self {pat s : Text} (h : ¬ pat <+: s) :
    trimStartMatchesStr pat s = s := by
  have hnone : s.dropPrefix? pat = none := stripPrefix_eq_none.mpr h
  rw [trimStartMatchesStr, hnone]

theorem trimStartMatchesStr_append {pat : Text} (hpat : pat ≠ []) (s : Text) :
    trimStartMatchesStr pat (pat ++ s) = trimStartMatchesStr pat s := by
  have hdrop : (pat ++ s).dropPrefix? pat = some s := stripPrefix_eq_some.mpr rfl
  have hless : s.length < (pat ++ s).length := by
    rw [List.length_append]
    exact Nat.lt_add_of_pos_left (List.length_pos_iff.mpr hpat)
  conv_lhs => rw [trimStartMatchesStr, hdrop]
  exact if_pos hless

end Lib.Text
