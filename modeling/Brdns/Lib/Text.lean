import Mathlib.Data.List.DropRight
import Mathlib.Tactic.Common

/-! Unicode text as a list of characters, with the string operations of a language whose strings
are UTF-8. Byte lengths are those of the UTF-8 form. -/

namespace Lib

abbrev Text := List Char

namespace Text

/-- The UTF-8 form of a text. -/
def bytes (s : Text) : List UInt8 := s.flatMap String.utf8EncodeChar

/-- Length in bytes. -/
def len (s : Text) : ℕ := (bytes s).length

/-! ### Trimming, prefixes, splitting -/

def trimEndMatches (c : Char) (s : Text) : Text := s.rdropWhile (· == c)

def trimStartMatches (c : Char) (s : Text) : Text := s.dropWhile (· == c)

/-- `trim_matches` of one character. -/
def trimMatches (c : Char) (s : Text) : Text := trimEndMatches c (trimStartMatches c s)

/-- Remove a non-empty prefix as often as it occurs. -/
def trimStartMatchesStr (pat : Text) (s : Text) : Text :=
  match s.dropPrefix? pat with
  | some rest => if rest.length < s.length then trimStartMatchesStr pat rest else s
  | none => s
  termination_by s.length

def stripPrefix (pat s : Text) : Option Text := s.dropPrefix? pat

def stripSuffix (suffix s : Text) : Option Text := s.dropSuffix? suffix

def endsWith (suffix s : Text) : Bool := suffix.isSuffixOf s

def split (sep : Char) (s : Text) : List Text := s.splitOn sep

def join (sep : Char) (parts : List Text) : Text := [sep].intercalate parts

/-- The Unicode `White_Space` property. -/
def isWhitespace (c : Char) : Bool :=
  (9 ≤ c.toNat && c.toNat ≤ 13) || c.toNat == 0x20 || c.toNat == 0x85 || c.toNat == 0xA0 ||
    c.toNat == 0x1680 || (0x2000 ≤ c.toNat && c.toNat ≤ 0x200A) || c.toNat == 0x2028 ||
    c.toNat == 0x2029 || c.toNat == 0x202F || c.toNat == 0x205F || c.toNat == 0x3000

def trim (s : Text) : Text := (s.dropWhile isWhitespace).rdropWhile isWhitespace

def splitWhitespace (s : Text) : List Text := (s.splitOnP isWhitespace).filter (· ≠ [])

/-- Drop one carriage return before a line feed. -/
def stripCr (line : Text) : Text := if line.getLast? = some '\r' then line.dropLast else line

/-- Lines end at a line feed, with a carriage return before it dropped; what follows the last
line feed is a line of its own unless it is empty. -/
def lines (s : Text) : List Text :=
  let parts := s.splitOn '\n'
  parts.dropLast.map stripCr ++ (parts.getLast?.toList.filter (· ≠ []))

/-! ### Letter case -/

def toAsciiLowercase (s : Text) : Text := s.map Char.toLower

/-- The Unicode tables behind lowercasing: they change between Unicode versions, so a
development that depends on no version takes them as given. They are consulted for characters
outside ASCII only, and no such character lowercases to an ASCII capital. -/
class UnicodeTables where
  lower : Char → Text
  cased : Char → Bool
  caseIgnorable : Char → Bool
  lower_not_upper : ∀ c, 128 ≤ c.toNat → ∀ d ∈ lower c, d.isUpper = false

section Lowercase

variable [UnicodeTables]

def charToLowercase (c : Char) : Text :=
  if c.toNat < 128 then [c.toLower] else UnicodeTables.lower c

/-- Past case-ignorable characters, is the next one cased? -/
def caseIgnorableThenCased (s : Text) : Bool :=
  match s.dropWhile UnicodeTables.caseIgnorable with
  | c :: _ => UnicodeTables.cased c
  | [] => false

/-- Capital sigma at the end of a word has a form of its own. -/
def mapUppercaseSigma (before after : Text) : Char :=
  if caseIgnorableThenCased before && !caseIgnorableThenCased after then 'ς' else 'σ'

/-- `before` holds the characters already passed, the nearest first. -/
def toLowercaseFrom (before : Text) : Text → Text
  | [] => []
  | c :: after =>
    (if c = 'Σ' then [mapUppercaseSigma before after] else charToLowercase c) ++
      toLowercaseFrom (c :: before) after

def toLowercase (s : Text) : Text := toLowercaseFrom [] s

end Lowercase

/-! ### Lossy reading of UTF-8 -/

def replacement : Char := Char.ofNat 0xFFFD

def isContinuation (b : UInt8) : Bool := b &&& 0xC0 == 0x80

/-- Which second bytes may follow the first byte of a three-byte sequence. -/
def validSecondOf3 (b₀ b₁ : UInt8) : Bool :=
  (b₀ == 0xE0 && (0xA0 ≤ b₁ && b₁ ≤ 0xBF)) || (0xE1 ≤ b₀ && b₀ ≤ 0xEC && isContinuation b₁) ||
    (b₀ == 0xED && (0x80 ≤ b₁ && b₁ ≤ 0x9F)) || (0xEE ≤ b₀ && b₀ ≤ 0xEF && isContinuation b₁)

/-- Which second bytes may follow the first byte of a four-byte sequence. -/
def validSecondOf4 (b₀ b₁ : UInt8) : Bool :=
  (b₀ == 0xF0 && (0x90 ≤ b₁ && b₁ ≤ 0xBF)) || (0xF1 ≤ b₀ && b₀ ≤ 0xF3 && isContinuation b₁) ||
    (b₀ == 0xF4 && (0x80 ≤ b₁ && b₁ ≤ 0x8F))

/-- The bits a continuation byte carries. -/
def low6 (b : UInt8) : ℕ := b.toNat % 64

/-- Decode UTF-8, with one replacement character for each maximal invalid piece. -/
def fromUtf8Lossy : List UInt8 → Text
  | [] => []
  | b₀ :: r₀ =>
    if b₀ < 0x80 then Char.ofNat b₀.toNat :: fromUtf8Lossy r₀
    else if 0xC2 ≤ b₀ && b₀ ≤ 0xDF then
      match r₀ with
      | [] => [replacement]
      | b₁ :: r₁ =>
        if isContinuation b₁ then
          Char.ofNat (b₀.toNat % 32 * 64 + low6 b₁) :: fromUtf8Lossy r₁
        else replacement :: fromUtf8Lossy (b₁ :: r₁)
    else if 0xE0 ≤ b₀ && b₀ ≤ 0xEF then
      match r₀ with
      | [] => [replacement]
      | b₁ :: r₁ =>
        if validSecondOf3 b₀ b₁ then
          match r₁ with
          | [] => [replacement]
          | b₂ :: r₂ =>
            if isContinuation b₂ then
              Char.ofNat (b₀.toNat % 16 * 4096 + low6 b₁ * 64 + low6 b₂) :: fromUtf8Lossy r₂
            else replacement :: fromUtf8Lossy (b₂ :: r₂)
        else replacement :: fromUtf8Lossy (b₁ :: r₁)
    else if 0xF0 ≤ b₀ && b₀ ≤ 0xF4 then
      match r₀ with
      | [] => [replacement]
      | b₁ :: r₁ =>
        if validSecondOf4 b₀ b₁ then
          match r₁ with
          | [] => [replacement]
          | b₂ :: r₂ =>
            if isContinuation b₂ then
              match r₂ with
              | [] => [replacement]
              | b₃ :: r₃ =>
                if isContinuation b₃ then
                  Char.ofNat (b₀.toNat % 8 * 262144 + low6 b₁ * 4096 + low6 b₂ * 64 + low6 b₃) ::
                    fromUtf8Lossy r₃
                else replacement :: fromUtf8Lossy (b₃ :: r₃)
            else replacement :: fromUtf8Lossy (b₂ :: r₂)
        else replacement :: fromUtf8Lossy (b₁ :: r₁)
    else replacement :: fromUtf8Lossy r₀

/-! ### Slices -/

/-- The text from a byte offset on, unless the offset is inside a character or past the end. -/
def dropBytes : ℕ → Text → Option Text
  | 0, s => some s
  | _ + 1, [] => none
  | n + 1, c :: s => if c.utf8Size ≤ n + 1 then dropBytes (n + 1 - c.utf8Size) s else none

/-- The text up to a byte offset, unless the offset is inside a character or past the end. -/
def takeBytes : ℕ → Text → Option Text
  | 0, _ => some []
  | _ + 1, [] => none
  | n + 1, c :: s =>
    if c.utf8Size ≤ n + 1 then (takeBytes (n + 1 - c.utf8Size) s).map (c :: ·) else none

/-- The text between two byte offsets. -/
def slice (s : Text) (i j : ℕ) : Option Text :=
  if i ≤ j then (dropBytes i s).bind (takeBytes (j - i)) else none

/-! ### Numbers -/

def toDigit (radix : ℕ) (c : Char) : Option ℕ :=
  let digit :=
    if c.isDigit then c.toNat - 48
    else if c.isLower then c.toNat - 87
    else if c.isUpper then c.toNat - 55
    else radix
  if digit < radix then some digit else none

/-- The number a text of digits writes, as long as it fits an octet. -/
def u8FromDigits (digits : Text) (radix : ℕ) : Option UInt8 :=
  let push (v : ℕ) (c : Char) : Option ℕ :=
    (toDigit radix c).bind fun digit =>
      if v * radix + digit < 256 then some (v * radix + digit) else none
  (digits.foldlM push 0).map UInt8.ofNat

/-- Digits, which a plus sign may precede. -/
def u8FromStrRadix (s : Text) (radix : ℕ) : Option UInt8 :=
  match s with
  | [] => none
  | ['+'] => none
  | '+' :: digits => u8FromDigits digits radix
  | digits => u8FromDigits digits radix

/-! ### Bytes of texts -/

theorem bytes_cons (c : Char) (s : Text) : bytes (c :: s) = String.utf8EncodeChar c ++ bytes s :=
  List.flatMap_cons

theorem bytes_append (s t : Text) : bytes (s ++ t) = bytes s ++ bytes t := List.flatMap_append

theorem len_cons (c : Char) (s : Text) : len (c :: s) = c.utf8Size + len s := by
  rw [len, bytes_cons, List.length_append, String.length_utf8EncodeChar, len]

theorem len_append (s t : Text) : len (s ++ t) = len s + len t := by
  rw [len, bytes_append, List.length_append, len, len]

theorem dropBytes_append (s t : Text) : dropBytes (len s) (s ++ t) = some t := by
  induction s with
  | nil => cases t <;> rfl
  | cons c s ih =>
    have hpos := c.utf8Size_pos
    obtain ⟨n, hn⟩ : ∃ n, c.utf8Size + len s = n + 1 := ⟨c.utf8Size + len s - 1, by omega⟩
    rw [len_cons, hn, List.cons_append, dropBytes, ← hn, if_pos (Nat.le_add_right _ _),
      Nat.add_sub_cancel_left, ih]

/-! ### Ends of texts -/

theorem utf8EncodeChar_inj {c d : Char} (h : String.utf8EncodeChar c = String.utf8EncodeChar d) :
    c = d := by
  have hc := @ByteArray.utf8DecodeChar?_utf8EncodeChar_append ByteArray.empty c
  have hd := @ByteArray.utf8DecodeChar?_utf8EncodeChar_append ByteArray.empty d
  rw [h, hd] at hc
  exact (Option.some.inj hc).symm

/-- Only the first octet of a character's UTF-8 form can begin one. -/
theorem char_of_suffix {c d : Char} (h : String.utf8EncodeChar c <:+ String.utf8EncodeChar d) :
    c = d := by
  obtain ⟨x, hx⟩ := h
  have hlen : x.length < (String.utf8EncodeChar d).length := by
    have hc := List.length_pos_iff.mpr (String.utf8EncodeChar_ne_nil (c := c))
    rw [← hx, List.length_append]
    omega
  have hfirst : (String.utf8EncodeChar d)[x.length].IsUTF8FirstByte := by
    simp only [← hx, List.getElem_append_right (Nat.le_refl x.length), Nat.sub_self]
    exact UInt8.isUTF8FirstByte_getElem_zero_utf8EncodeChar
  rw [UInt8.isUTF8FirstByte_getElem_utf8EncodeChar, List.length_eq_zero_iff] at hfirst
  rw [hfirst, List.nil_append] at hx
  exact utf8EncodeChar_inj hx

theorem bytes_concat (s : Text) (c : Char) :
    bytes (s ++ [c]) = bytes s ++ String.utf8EncodeChar c := by
  rw [bytes, List.flatMap_append, List.flatMap_singleton]
  rfl

/-- A text ends as another does exactly when its octets do. -/
theorem bytes_suffix_iff {s t : Text} : bytes t <:+ bytes s ↔ t <:+ s := by
  constructor
  · induction t using List.reverseRecOn generalizing s with
    | nil => exact fun _ => List.nil_suffix
    | append_singleton t c ih =>
      intro h
      rw [bytes_concat] at h
      rcases s.eq_nil_or_concat' with rfl | ⟨s, d, rfl⟩
      · have hnil := List.append_eq_nil_iff.mp (List.suffix_nil.mp h)
        exact absurd hnil.2 String.utf8EncodeChar_ne_nil
      · rw [bytes_concat] at h
        have hc : String.utf8EncodeChar c <:+ bytes s ++ String.utf8EncodeChar d :=
          (List.suffix_append _ _).trans h
        have hd : String.utf8EncodeChar d <:+ bytes s ++ String.utf8EncodeChar d :=
          List.suffix_append _ _
        obtain rfl : c = d := by
          rcases Nat.le_total (String.utf8EncodeChar c).length (String.utf8EncodeChar d).length
            with hle | hle
          · exact char_of_suffix (List.suffix_of_suffix_length_le hc hd hle)
          · exact (char_of_suffix (List.suffix_of_suffix_length_le hd hc hle)).symm
        rw [List.suffix_append_self_iff] at h ⊢
        exact ih h
  · rintro ⟨x, rfl⟩
    rw [bytes, bytes, List.flatMap_append]
    exact List.suffix_append _ _

theorem bytes_inj {s t : Text} (h : bytes s = bytes t) : s = t := by
  have hst : s <:+ t := bytes_suffix_iff.mp (h ▸ List.suffix_rfl)
  have hts : t <:+ s := bytes_suffix_iff.mp (h ▸ List.suffix_rfl)
  exact hst.eq_of_length_le hts.length_le

end Text

end Lib
