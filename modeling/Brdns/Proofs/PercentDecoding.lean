import Brdns.Lib.Percent
import Brdns.Spec.Doh

/-! When `percent_decode` is the decoding of percent triplets. Its loop over bytes is a recursion
over characters, in which only what stands behind a `%` matters. -/

namespace Brdns

open Lib Percent

/-! ### The loop as a recursion over characters -/

/-- What the loop does at `%` before `s`: it takes an octet and goes on behind its digits, it copies
the `%`, or it panics. -/
def escape (s : Text) : CplResult (Option (UInt8 × Text)) :=
  if 2 ≤ Text.len s then
    match Text.takeBytes 2 s with
    | none => .error notCharBoundary
    | some hex => .ok ((Text.u8FromStrRadix hex 16).map (·, s.drop hex.length))
  else .ok none

theorem takeBytes_spec {n : ℕ} {s t : Text} (h : Text.takeBytes n s = some t) :
    s = t ++ s.drop t.length ∧ Text.len t = n := by
  induction s generalizing n t with
  | nil =>
    cases n with
    | zero =>
      cases h
      exact ⟨rfl, rfl⟩
    | succ n => cases h
  | cons c s ih =>
    cases n with
    | zero =>
      cases h
      exact ⟨rfl, rfl⟩
    | succ n =>
      rw [Text.takeBytes, Option.ite_none_right_eq_some, Option.map_eq_some_iff] at h
      obtain ⟨hsize, t, ht, rfl⟩ := h
      obtain ⟨hs, hlen⟩ := ih ht
      refine ⟨congrArg (c :: ·) hs, ?_⟩
      rw [Text.len_cons, hlen]
      omega

/-- A slice of two bytes is one character or two. -/
theorem takeBytes_two {s hex : Text} (h : Text.takeBytes 2 s = some hex) :
    (∃ a r, s = a :: r ∧ hex = [a] ∧ a.utf8Size = 2) ∨
      ∃ a b r, s = a :: b :: r ∧ hex = [a, b] ∧ a.utf8Size = 1 ∧ b.utf8Size = 1 := by
  obtain ⟨hs, hlen⟩ := takeBytes_spec h
  rcases hex with _ | ⟨a, _ | ⟨b, hex⟩⟩
  · cases hlen
  · rw [Text.len_cons] at hlen
    exact Or.inl ⟨a, _, hs, rfl, hlen⟩
  · rw [Text.len_cons, Text.len_cons] at hlen
    have ha := a.utf8Size_pos
    have hb := b.utf8Size_pos
    rcases hex with _ | ⟨c, hex⟩
    · exact Or.inr ⟨a, b, _, hs, rfl, by omega, by omega⟩
    · rw [Text.len_cons] at hlen
      have hc := c.utf8Size_pos
      omega

theorem escape_some {s r : Text} {v : UInt8} (h : escape s = .ok (some (v, r))) :
    ∃ hex, Text.takeBytes 2 s = some hex ∧ Text.u8FromStrRadix hex 16 = some v ∧
      r = s.drop hex.length ∧ 2 ≤ Text.len s := by
  rw [escape] at h
  split_ifs at h with hlen
  · rcases hhex : Text.takeBytes 2 s with _ | hex
    · rw [hhex] at h
      cases h
    · rw [hhex] at h
      have h := Except.ok.inj h
      rw [Option.map_eq_some_iff] at h
      obtain ⟨w, hw, heq⟩ := h
      rw [Prod.mk.injEq] at heq
      exact ⟨hex, rfl, heq.1 ▸ hw, heq.2.symm, hlen⟩
  · cases h

theorem escape_length {s r : Text} {v : UInt8} (h : escape s = .ok (some (v, r))) :
    r.length ≤ s.length := by
  obtain ⟨hex, -, -, rfl, -⟩ := escape_some h
  rw [List.length_drop]
  exact Nat.sub_le _ _

def percentDecodeChars : Text → CplResult (List UInt8)
  | [] => .ok []
  | c :: s =>
    if c = '%' then
      match _ : escape s with
      | .error e => .error e
      | .ok (some (v, r)) => (v :: ·) <$> percentDecodeChars r
      | .ok none => (percent :: ·) <$> percentDecodeChars s
    else (String.utf8EncodeChar c ++ ·) <$> percentDecodeChars s
  termination_by s => s.length
  decreasing_by
  · exact Nat.lt_succ_of_le (escape_length ‹_›)
  · exact Nat.lt_succ_self _
  · exact Nat.lt_succ_self _

theorem percentDecodeLoop_end {input : Text} {i : ℕ} (h : Text.len input ≤ i) (out : List UInt8) :
    percentDecodeLoop input i out = .ok out := by
  have hi : ¬ i < (Text.bytes input).length := Nat.not_lt.mpr h
  rw [percentDecodeLoop, dif_neg hi]

theorem percentDecodeLoop_copy {input : Text} {i : ℕ} {b : UInt8} {l : List UInt8}
    (h : (Text.bytes input).drop i = b :: l) (hb : b ≠ percent) (out : List UInt8) :
    percentDecodeLoop input i out = percentDecodeLoop input (i + 1) (out ++ [b]) := by
  have hi : i < (Text.bytes input).length := by
    by_contra hge
    rw [List.drop_eq_nil_of_le (Nat.le_of_not_lt hge)] at h
    cases h
  have hget : (Text.bytes input)[i] = b := by
    rw [List.drop_eq_getElem_cons hi] at h
    exact (List.cons.inj h).1
  have hne : (b == 0x25) = false := beq_false_of_ne hb
  rw [percentDecodeLoop, dif_pos hi]
  simp only [hget, hne, Bool.false_and, Bool.false_eq_true, if_false]

theorem percentDecodeLoop_copies {input : Text} {p l : List UInt8} (hp : ∀ b ∈ p, b ≠ percent)
    {i : ℕ} (h : (Text.bytes input).drop i = p ++ l) (out : List UInt8) :
    percentDecodeLoop input i out = percentDecodeLoop input (i + p.length) (out ++ p) := by
  induction p generalizing i out with
  | nil => rw [List.append_nil, List.length_nil, Nat.add_zero]
  | cons b p ih =>
    obtain ⟨hb, hp⟩ := List.forall_mem_cons.mp hp
    have hnext : (Text.bytes input).drop (i + 1) = p ++ l := by
      rw [← List.drop_drop, h]
      rfl
    rw [percentDecodeLoop_copy h hb, ih hp hnext, List.append_assoc, List.length_cons,
      Nat.add_assoc, Nat.add_comm 1, List.singleton_append]

theorem drop_len (pre s : Text) : (Text.bytes (pre ++ s)).drop (Text.len pre) = Text.bytes s := by
  rw [Text.bytes_append, Text.len, List.drop_left]

/-- The step at a `%`. -/
theorem percentDecodeLoop_percent (pre s : Text) (out : List UInt8) :
    percentDecodeLoop (pre ++ '%' :: s) (Text.len pre) out =
      match escape s with
      | .error e => .error e
      | .ok (some (v, _)) => percentDecodeLoop (pre ++ '%' :: s) (Text.len pre + 3) (out ++ [v])
      | .ok none => percentDecodeLoop (pre ++ '%' :: s) (Text.len pre + 1) (out ++ [percent]) := by
  have hdrop := drop_len pre ('%' :: s)
  have hlen : (Text.bytes (pre ++ '%' :: s)).length = Text.len pre + (1 + Text.len s) := by
    have hlen : Text.len (pre ++ '%' :: s) = Text.len pre + (1 + Text.len s) := by
      rw [Text.len_append, Text.len_cons]
      rfl
    exact hlen
  have hi : Text.len pre < (Text.bytes (pre ++ '%' :: s)).length := by omega
  have hget : (Text.bytes (pre ++ '%' :: s))[Text.len pre] = 0x25 := by
    rw [List.drop_eq_getElem_cons hi, Text.bytes_cons] at hdrop
    exact (List.cons.inj hdrop).1
  have hslice : Text.slice (pre ++ '%' :: s) (Text.len pre + 1) (Text.len pre + 3) =
      Text.takeBytes 2 s := by
    have hpre : Text.len (pre ++ ['%']) = Text.len pre + 1 := Text.len_append pre ['%']
    have hs : Text.dropBytes (Text.len pre + 1) (pre ++ '%' :: s) = some s := by
      rw [← hpre, List.append_cons pre '%' s, Text.dropBytes_append]
    rw [Text.slice, if_pos (by omega), hs, Option.bind_some]
    congr 1
    omega
  rw [percentDecodeLoop, dif_pos hi]
  simp only [hget, hslice, beq_self_eq_true, Bool.true_and, decide_eq_true_eq, hlen, escape]
  by_cases htwo : 2 ≤ Text.len s
  · rw [if_pos (by omega), if_pos htwo]
    rcases Text.takeBytes 2 s with _ | hex
    · rfl
    · dsimp only
      rcases Text.u8FromStrRadix hex 16 with _ | v <;> rfl
  · rw [if_neg (by omega), if_neg htwo]
    rfl

theorem utf8EncodeChar_ne_percent {c : Char} (hc : c ≠ '%') :
    ∀ b ∈ String.utf8EncodeChar c, b ≠ percent := by
  by_cases hascii : c.toNat < 128
  · rw [Text.utf8EncodeChar_of_ascii hascii, List.forall_mem_singleton]
    intro heq
    apply hc
    have hnat := congrArg UInt8.toNat heq
    rw [Text.ascii_byte hascii] at hnat
    rw [← Char.ofNat_toNat c, hnat]
    rfl
  · rintro b hb rfl
    have hhigh := Text.utf8EncodeChar_high (Nat.le_of_not_lt hascii) percent hb
    exact absurd hhigh (by decide)

section

variable {s r : Text} {v : UInt8} {e : Failure}

theorem percentDecodeChars_error (h : escape s = .error e) :
    percentDecodeChars ('%' :: s) = .error e := by
  rw [percentDecodeChars, if_pos rfl]
  split <;> simp_all

theorem percentDecodeChars_some (h : escape s = .ok (some (v, r))) :
    percentDecodeChars ('%' :: s) = ([v] ++ ·) <$> percentDecodeChars r := by
  rw [percentDecodeChars, if_pos rfl]
  split <;> simp_all

theorem percentDecodeChars_none (h : escape s = .ok none) :
    percentDecodeChars ('%' :: s) = ([percent] ++ ·) <$> percentDecodeChars s := by
  rw [percentDecodeChars, if_pos rfl]
  split <;> simp_all

end

theorem append_map_append (p q : List UInt8) (x : CplResult (List UInt8)) :
    (p ++ ·) <$> (q ++ ·) <$> x = (p ++ q ++ ·) <$> x := by
  rw [Functor.map_map]
  simp only [List.append_assoc]

/-- The loop reads one character after the other. -/
theorem percentDecodeLoop_eq (s pre : Text) (out : List UInt8) :
    percentDecodeLoop (pre ++ s) (Text.len pre) out = (out ++ ·) <$> percentDecodeChars s := by
  induction s using percentDecodeChars.induct generalizing pre out with
  | case1 =>
    rw [List.append_nil, percentDecodeLoop_end (Nat.le_refl _), percentDecodeChars]
    exact congrArg Except.ok (List.append_nil out).symm
  | case2 s e he =>
    rw [percentDecodeLoop_percent, percentDecodeChars_error he, he]
    rfl
  | case3 s v r he ih =>
    obtain ⟨hex, hhex, -, hr, -⟩ := escape_some he
    obtain ⟨hs, hlen⟩ := takeBytes_spec hhex
    rw [← hr] at hs
    have hpre : Text.len (pre ++ '%' :: hex) = Text.len pre + 3 := by
      rw [Text.len_append, Text.len_cons, hlen]
      rfl
    have hinput : pre ++ '%' :: s = pre ++ '%' :: hex ++ r := by
      rw [hs, List.append_assoc, List.cons_append]
    rw [percentDecodeLoop_percent, percentDecodeChars_some he, he, append_map_append]
    dsimp only
    rw [← hpre, hinput, ih]
  | case4 s he ih =>
    have hpre : Text.len (pre ++ ['%']) = Text.len pre + 1 := Text.len_append pre ['%']
    rw [percentDecodeLoop_percent, percentDecodeChars_none he, he, append_map_append]
    dsimp only
    rw [← hpre, List.append_cons pre '%' s, ih]
  | case5 c s hc ih =>
    have hpre : Text.len (pre ++ [c]) = Text.len pre + (String.utf8EncodeChar c).length := by
      rw [Text.len_append, Text.len_cons, String.length_utf8EncodeChar]
      rfl
    have hdrop := drop_len pre (c :: s)
    rw [Text.bytes_cons] at hdrop
    rw [percentDecodeChars, if_neg hc, append_map_append,
      percentDecodeLoop_copies (utf8EncodeChar_ne_percent hc) hdrop, ← hpre,
      List.append_cons pre c s, ih]

theorem percentDecode_eq (s : Text) :
    percentDecode s = Text.fromUtf8Lossy <$> percentDecodeChars s := by
  have hloop : percentDecodeLoop s 0 [] = ([] ++ ·) <$> percentDecodeChars s :=
    percentDecodeLoop_eq s [] []
  rw [percentDecode, hloop]
  rcases percentDecodeChars s <;> rfl

/-! ### What stands behind a `%` -/

/-- Behind a `%` nothing makes the code leave the rule: at most one byte, a character of two bytes,
or two ASCII characters that are not a plus sign with a digit. -/
def Harmless : Text → Prop
  | [] => True
  | [a] => a.utf8Size ≤ 2
  | a :: b :: _ =>
    a.utf8Size = 2 ∨
      (a.utf8Size = 1 ∧ b.utf8Size = 1 ∧ ¬ (a = '+' ∧ (Text.toDigit 16 b).isSome))

instance : DecidablePred Harmless
  | [] => inferInstanceAs (Decidable True)
  | [_] => inferInstanceAs (Decidable (_ ≤ _))
  | _ :: _ :: _ => inferInstanceAs (Decidable (_ ∨ _))

def Settled (s : Text) : Prop := ∀ t, '%' :: t <:+ s → Harmless t

theorem settled_cons {c : Char} {s : Text} :
    Settled (c :: s) ↔ (c = '%' → Harmless s) ∧ Settled s := by
  simp only [Settled, List.suffix_cons_iff, List.cons.injEq]
  constructor
  · exact fun h => ⟨fun hc => h s (Or.inl ⟨hc.symm, rfl⟩), fun t ht => h t (Or.inr ht)⟩
  · rintro ⟨hs, h⟩ t (⟨hc, rfl⟩ | ht)
    · exact hs hc.symm
    · exact h t ht

theorem toNat_of_utf8Size_one {c : Char} : c.utf8Size = 1 ↔ c.toNat < 128 := by
  rw [Char.utf8Size_eq_one_iff, UInt32.le_iff_toNat_le]
  exact Nat.lt_succ_iff.symm

theorem u8FromDigits_one (b : Char) :
    Text.u8FromDigits [b] 16 = (Text.toDigit 16 b).map UInt8.ofNat := by
  rcases h : Text.toDigit 16 b with _ | low
  · simp [Text.u8FromDigits, h]
  · have hlow := toDigit_lt h
    have hfit : low < 256 := by omega
    simp [Text.u8FromDigits, h, hfit]

theorem u8FromDigits_two (a b : Char) :
    Text.u8FromDigits [a, b] 16 = (Text.toDigit 16 a).bind fun high =>
      (Text.toDigit 16 b).map fun low => UInt8.ofNat (16 * high + low) := by
  rcases ha : Text.toDigit 16 a with _ | high
  · simp [Text.u8FromDigits, ha]
  · rcases hb : Text.toDigit 16 b with _ | low
    · simp [Text.u8FromDigits, ha, hb]
    · have hhigh := toDigit_lt ha
      have hlow := toDigit_lt hb
      have hfit : high < 256 := by omega
      have hfit' : high * 16 + low < 256 := by omega
      simp [Text.u8FromDigits, ha, hb, hfit, hfit', Nat.mul_comm]

/-- Two digits, or a plus sign and one digit. -/
theorem u8FromStrRadix_two {a b : Char} {v : UInt8} :
    Text.u8FromStrRadix [a, b] 16 = some v ↔
      (∃ high low, Text.toDigit 16 a = some high ∧ Text.toDigit 16 b = some low ∧
        v = UInt8.ofNat (16 * high + low)) ∨
      a = '+' ∧ ∃ low, Text.toDigit 16 b = some low ∧ v = UInt8.ofNat low := by
  by_cases ha : a = '+'
  · subst ha
    have hplus : Text.toDigit 16 '+' = none := by decide
    have hread : Text.u8FromStrRadix ['+', b] 16 = Text.u8FromDigits [b] 16 := rfl
    rw [hread, u8FromDigits_one]
    simp [hplus, eq_comm]
  · have hread : Text.u8FromStrRadix [a, b] 16 = Text.u8FromDigits [a, b] 16 := by
      simp [Text.u8FromStrRadix, ha]
    rw [hread, u8FromDigits_two]
    simp only [Option.bind_eq_some_iff, Option.map_eq_some_iff, ha, false_and, or_false]
    constructor
    · rintro ⟨high, hhigh, low, hlow, rfl⟩
      exact ⟨high, low, hhigh, hlow, rfl⟩
    · rintro ⟨high, low, hhigh, hlow, rfl⟩
      exact ⟨high, hhigh, low, hlow, rfl⟩

/-! ### The code against the rule -/

theorem bytes_pair {a b : Char} (ha : a.utf8Size = 1) (hb : b.utf8Size = 1) (r : Text) :
    Text.bytes (a :: b :: r) =
      UInt8.ofNat a.toNat :: UInt8.ofNat b.toNat :: Text.bytes r := by
  rw [Text.bytes_cons, Text.bytes_cons, Text.utf8EncodeChar_of_ascii (toNat_of_utf8Size_one.mp ha),
    Text.utf8EncodeChar_of_ascii (toNat_of_utf8Size_one.mp hb)]
  rfl

theorem hexDigit_char {c : Char} (hc : c.utf8Size = 1) :
    hexDigit (UInt8.ofNat c.toNat) = Text.toDigit 16 c :=
  hexDigit_ofNat (toNat_of_utf8Size_one.mp hc)

/-- The rule copies a `%` before a character outside ASCII. -/
theorem decode_percent_high {a : Char} (ha : 128 ≤ a.toNat) (r : Text) :
    decode (percent :: Text.bytes (a :: r)) = percent :: decode (Text.bytes (a :: r)) := by
  apply decode_percent
  intro x y l h
  left
  apply hexDigit_of_not_ascii
  apply Text.utf8EncodeChar_high ha
  obtain ⟨b, p, hp⟩ := List.exists_cons_of_ne_nil (String.utf8EncodeChar_ne_nil (c := a))
  rw [Text.bytes_cons, hp, List.cons_append] at h
  rw [hp, (List.cons.inj h).1]
  exact List.mem_cons_self

/-- With fewer than two bytes behind it a `%` is copied. -/
theorem short_spec {s : Text} (h : ¬ 2 ≤ Text.len s) :
    Harmless s ∧ decode (percent :: Text.bytes s) = percent :: decode (Text.bytes s) := by
  rcases s with _ | ⟨a, _ | ⟨b, s⟩⟩
  · exact ⟨trivial, rfl⟩
  · rw [Text.len_cons] at h
    have hone : a.utf8Size = 1 := by
      have ha := a.utf8Size_pos
      omega
    refine ⟨Nat.le_trans (Nat.le_of_eq hone) (by decide), ?_⟩
    have hbytes : Text.bytes [a] = [UInt8.ofNat a.toNat] := by
      rw [Text.bytes_cons, Text.utf8EncodeChar_of_ascii (toNat_of_utf8Size_one.mp hone)]
      rfl
    rw [hbytes]
    rfl
  · rw [Text.len_cons, Text.len_cons] at h
    have ha := a.utf8Size_pos
    have hb := b.utf8Size_pos
    omega

theorem wide_spec {a : Char} (ha : a.utf8Size = 2) (r : Text) :
    Harmless (a :: r) ∧
      decode (percent :: Text.bytes (a :: r)) = percent :: decode (Text.bytes (a :: r)) := by
  have hhigh : ¬ a.toNat < 128 := by
    rw [← toNat_of_utf8Size_one, ha]
    decide
  refine ⟨?_, decode_percent_high (Nat.le_of_not_lt hhigh) r⟩
  rcases r with _ | ⟨b, r⟩
  · exact Nat.le_of_eq ha
  · exact Or.inl ha

/-- Two characters that are no number. -/
theorem pair_spec {a b : Char} (ha : a.utf8Size = 1) (hb : b.utf8Size = 1)
    (hnone : Text.u8FromStrRadix [a, b] 16 = none) (r : Text) :
    Harmless (a :: b :: r) ∧
      decode (percent :: Text.bytes (a :: b :: r)) =
        percent :: decode (Text.bytes (a :: b :: r)) := by
  have hno : ∀ v, Text.u8FromStrRadix [a, b] 16 ≠ some v := by
    intro v hv
    rw [hnone] at hv
    cases hv
  constructor
  · refine Or.inr ⟨ha, hb, ?_⟩
    rintro ⟨rfl, hdigit⟩
    obtain ⟨low, hlow⟩ := Option.isSome_iff_exists.mp hdigit
    exact hno _ (u8FromStrRadix_two.mpr (Or.inr ⟨rfl, low, hlow, rfl⟩))
  · apply decode_percent
    rw [bytes_pair ha hb]
    rintro x y l heq
    cases heq
    rw [hexDigit_char ha, hexDigit_char hb]
    rcases hhigh : Text.toDigit 16 a with _ | high
    · exact Or.inl rfl
    · rcases hlow : Text.toDigit 16 b with _ | low
      · exact Or.inr rfl
      · exact absurd (u8FromStrRadix_two.mpr (Or.inl ⟨high, low, hhigh, hlow, rfl⟩)) (hno _)

/-- A `%` that the code copies is harmless, and the rule copies it as well. -/
theorem escape_none_spec {s : Text} (h : escape s = .ok none) :
    Harmless s ∧ decode (percent :: Text.bytes s) = percent :: decode (Text.bytes s) := by
  rw [escape] at h
  split_ifs at h with hlen
  · rcases hhex : Text.takeBytes 2 s with _ | hex
    · rw [hhex] at h
      cases h
    · rw [hhex] at h
      have hnone := Option.map_eq_none_iff.mp (Except.ok.inj h)
      rcases takeBytes_two hhex with ⟨a, r, rfl, -, ha⟩ | ⟨a, b, r, rfl, rfl, ha, hb⟩
      · exact wide_spec ha r
      · exact pair_spec ha hb hnone r
  · exact short_spec hlen

theorem toDigit_ne_percent {c : Char} {d : ℕ} (h : Text.toDigit 16 c = some d) : c ≠ '%' := by
  rintro rfl
  have hpercent : Text.toDigit 16 '%' = none := by decide
  rw [hpercent] at h
  cases h

theorem toDigit_ascii {c : Char} {d : ℕ} (h : Text.toDigit 16 c = some d) : c.toNat < 128 := by
  by_contra hhigh
  rw [toDigit_of_not_ascii (Nat.le_of_not_lt hhigh)] at h
  cases h

theorem settled_pair {a b : Char} {r : Text} (ha : a ≠ '%') (hb : b ≠ '%') :
    Settled (a :: b :: r) ↔ Settled r := by
  rw [settled_cons, settled_cons]
  simp [ha, hb]

theorem wide_no_number {a : Char} (ha : a.utf8Size = 2) : Text.u8FromStrRadix [a] 16 = none := by
  have hread : Text.u8FromStrRadix [a] 16 = Text.u8FromDigits [a] 16 := by
    have hplus : a ≠ '+' := by
      rintro rfl
      cases ha
    simp [Text.u8FromStrRadix, hplus]
  rw [hread, u8FromDigits_one, Option.map_eq_none_iff]
  rcases hd : Text.toDigit 16 a with _ | d
  · rfl
  · rw [toNat_of_utf8Size_one.mpr (toDigit_ascii hd)] at ha
    cases ha

theorem triplet_spec {a b : Char} {high low : ℕ} (hhigh : Text.toDigit 16 a = some high)
    (hlow : Text.toDigit 16 b = some low) (r : Text) :
    Harmless (a :: b :: r) ∧ decode (percent :: Text.bytes (a :: b :: r)) =
      UInt8.ofNat (16 * high + low) :: decode (Text.bytes r) := by
  have ha := toNat_of_utf8Size_one.mpr (toDigit_ascii hhigh)
  have hb := toNat_of_utf8Size_one.mpr (toDigit_ascii hlow)
  constructor
  · refine Or.inr ⟨ha, hb, ?_⟩
    rintro ⟨rfl, -⟩
    cases hhigh
  · rw [bytes_pair ha hb, decode_triplet (hexDigit_char ha ▸ hhigh) (hexDigit_char hb ▸ hlow)]

theorem plus_spec {b : Char} {low : ℕ} (hlow : Text.toDigit 16 b = some low) (r : Text) :
    ¬ Harmless ('+' :: b :: r) ∧ UInt8.ofNat low ≠ 0x2B ∧
      ∃ x, decode (percent :: Text.bytes ('+' :: b :: r)) =
        percent :: 0x2B :: x :: decode (Text.bytes r) := by
  refine ⟨?_, ?_, UInt8.ofNat b.toNat, ?_⟩
  · rintro (hsize | ⟨-, -, hno⟩)
    · cases hsize
    · exact hno ⟨rfl, Option.isSome_iff_exists.mpr ⟨low, hlow⟩⟩
  · intro heq
    have hlt := toDigit_lt hlow
    have hnat := congrArg UInt8.toNat heq
    rw [UInt8.toNat_ofNat', Nat.mod_eq_of_lt (by omega)] at hnat
    have hnat : low = 43 := hnat
    omega
  · have hplus : hexDigit 0x2B = none := by decide
    have hb : UInt8.ofNat b.toNat ≠ percent := by
      apply utf8EncodeChar_ne_percent (toDigit_ne_percent hlow)
      rw [Text.utf8EncodeChar_of_ascii (toDigit_ascii hlow)]
      exact List.mem_singleton_self _
    have hbytes : Text.bytes ('+' :: b :: r) = 0x2B :: UInt8.ofNat b.toNat :: Text.bytes r :=
      bytes_pair (by decide) (toNat_of_utf8Size_one.mpr (toDigit_ascii hlow)) r
    rw [hbytes, decode_percent, decode_cons_of_ne (by decide), decode_cons_of_ne hb]
    rintro x y l heq
    cases heq
    exact Or.inl hplus

/-- What the code decodes is a triplet, or a plus sign with one digit. -/
theorem escape_some_spec {s r : Text} {v : UInt8} (h : escape s = .ok (some (v, r))) :
    (Settled s ↔ Settled r) ∧
      ((Harmless s ∧ decode (percent :: Text.bytes s) = v :: decode (Text.bytes r)) ∨
        ¬ Harmless s ∧ v ≠ 0x2B ∧ ∃ x, decode (percent :: Text.bytes s) =
          percent :: 0x2B :: x :: decode (Text.bytes r)) := by
  obtain ⟨hex, hhex, hv, rfl, -⟩ := escape_some h
  rcases takeBytes_two hhex with ⟨a, r, rfl, rfl, ha⟩ | ⟨a, b, r, rfl, rfl, -⟩
  · rw [wide_no_number ha] at hv
    cases hv
  · rcases u8FromStrRadix_two.mp hv with ⟨high, low, hhigh, hlow, rfl⟩ | ⟨rfl, low, hlow, rfl⟩
    · exact ⟨settled_pair (toDigit_ne_percent hhigh) (toDigit_ne_percent hlow),
        Or.inl (triplet_spec hhigh hlow r)⟩
    · exact ⟨settled_pair (by decide) (toDigit_ne_percent hlow), Or.inr (plus_spec hlow r)⟩

/-- A cut character is never harmless. -/
theorem escape_error_spec {s : Text} {e : Failure} (h : escape s = .error e) :
    e = notCharBoundary ∧ ¬ Harmless s := by
  rw [escape] at h
  split_ifs at h with hlen
  rcases hhex : Text.takeBytes 2 s with _ | hex
  · rw [hhex] at h
    refine ⟨(Except.error.inj h).symm, fun hharmless => ?_⟩
    have hwide : ∀ a r, a.utf8Size = 2 → Text.takeBytes 2 (a :: r) = some [a] := by
      intro a r ha
      simp [Text.takeBytes, ha]
    rcases s with _ | ⟨a, _ | ⟨b, r⟩⟩
    · cases hlen
    · rw [Text.len_cons] at hlen
      rw [hwide a [] (Nat.le_antisymm hharmless hlen)] at hhex
      cases hhex
    · rcases hharmless with ha | ⟨ha, hb, -⟩
      · rw [hwide a _ ha] at hhex
        cases hhex
      · simp [Text.takeBytes, ha, hb] at hhex
  · rw [hhex] at h
    cases h

theorem percentDecodeChars_of_settled {s : Text} (h : Settled s) :
    percentDecodeChars s = .ok (decode (Text.bytes s)) := by
  induction s using percentDecodeChars.induct with
  | case1 =>
    rw [percentDecodeChars]
    rfl
  | case2 s e he => exact absurd ((settled_cons.mp h).1 rfl) (escape_error_spec he).2
  | case3 s v r he ih =>
    obtain ⟨hharmless, hs⟩ := settled_cons.mp h
    obtain ⟨hsettled, ⟨-, hdecode⟩ | ⟨hbad, -⟩⟩ := escape_some_spec he
    · rw [percentDecodeChars_some he, ih (hsettled.mp hs)]
      exact congrArg Except.ok hdecode.symm
    · exact absurd (hharmless rfl) hbad
  | case4 s he ih =>
    rw [percentDecodeChars_none he, ih (settled_cons.mp h).2]
    exact congrArg Except.ok (escape_none_spec he).2.symm
  | case5 c s hc ih =>
    rw [percentDecodeChars, if_neg hc, ih (settled_cons.mp h).2, Text.bytes_cons,
      decode_append (utf8EncodeChar_ne_percent hc)]
    rfl

theorem append_map_ok {p out : List UInt8} {x : CplResult (List UInt8)}
    (h : (p ++ ·) <$> x = .ok out) : ∃ rest, x = .ok rest ∧ out = p ++ rest := by
  rcases x with e | rest
  · cases h
  · exact ⟨rest, rfl, (Except.ok.inj h).symm⟩

theorem count_append_lt {p l l' : List UInt8} {b : UInt8} (h : l.count b < l'.count b) :
    (p ++ l).count b < (p ++ l').count b := by
  rw [List.count_append, List.count_append]
  omega

/-- Where the code reads a plus sign into a number, it writes fewer plus signs than the rule. -/
theorem percentDecodeChars_unsettled {s : Text} {out : List UInt8}
    (h : percentDecodeChars s = .ok out) :
    Settled s ∨ out.count 0x2B < (decode (Text.bytes s)).count 0x2B := by
  have hpercent : ∀ s, Text.bytes ('%' :: s) = percent :: Text.bytes s := Text.bytes_cons '%'
  induction s using percentDecodeChars.induct generalizing out with
  | case1 => exact Or.inl fun t ht => by simp at ht
  | case2 s e he =>
    rw [percentDecodeChars_error he] at h
    cases h
  | case3 s v r he ih =>
    rw [percentDecodeChars_some he] at h
    obtain ⟨rest, hrest, rfl⟩ := append_map_ok h
    obtain ⟨hsettled, ⟨hharmless, hdecode⟩ | ⟨-, hv, b, hdecode⟩⟩ := escape_some_spec he
    · rw [settled_cons, hsettled, hpercent, hdecode]
      rcases ih hrest with hr | hlt
      · exact Or.inl ⟨fun _ => hharmless, hr⟩
      · exact Or.inr (count_append_lt (p := [v]) hlt)
    · right
      have hle : rest.count 0x2B ≤ (decode (Text.bytes r)).count 0x2B := by
        rcases ih hrest with hr | hlt
        · rw [percentDecodeChars_of_settled hr] at hrest
          rw [Except.ok.inj hrest]
        · exact Nat.le_of_lt hlt
      have hb : (decode (Text.bytes r)).count 0x2B ≤ (b :: decode (Text.bytes r)).count 0x2B :=
        List.count_le_count_cons
      rw [hpercent, hdecode, List.singleton_append, List.count_cons_of_ne hv,
        List.count_cons_of_ne (by decide), List.count_cons_self]
      omega
  | case4 s he ih =>
    rw [percentDecodeChars_none he] at h
    obtain ⟨rest, hrest, rfl⟩ := append_map_ok h
    obtain ⟨hharmless, hdecode⟩ := escape_none_spec he
    rw [settled_cons, hpercent, hdecode]
    rcases ih hrest with hs | hlt
    · exact Or.inl ⟨fun _ => hharmless, hs⟩
    · exact Or.inr (count_append_lt (p := [percent]) hlt)
  | case5 c s hc ih =>
    rw [percentDecodeChars, if_neg hc] at h
    obtain ⟨rest, hrest, rfl⟩ := append_map_ok h
    rw [settled_cons, Text.bytes_cons, decode_append (utf8EncodeChar_ne_percent hc)]
    rcases ih hrest with hs | hlt
    · exact Or.inl ⟨fun heq => absurd heq hc, hs⟩
    · exact Or.inr (count_append_lt hlt)

theorem percentDecode_of_settled {s : Text} (h : Settled s) :
    percentDecode s = .ok (Text.fromUtf8Lossy (decode (Text.bytes s))) := by
  rw [percentDecode_eq, percentDecodeChars_of_settled h]
  rfl

/-- `percent_decode` neither panics nor leaves the rule exactly if every `%` is harmless. -/
theorem percentDecode_iff (s : Text) :
    percentDecode s = .ok (Text.fromUtf8Lossy (decode (Text.bytes s))) ↔
      ∀ t, '%' :: t <:+ s → Harmless t := by
  refine ⟨fun h => ?_, percentDecode_of_settled⟩
  rw [percentDecode_eq] at h
  rcases hout : percentDecodeChars s with e | out
  · rw [hout] at h
    cases h
  · rw [hout] at h
    refine (percentDecodeChars_unsettled hout).resolve_right fun hlt => ?_
    have hplus := congrArg (List.count '+') (Except.ok.inj h)
    rw [Text.count_fromUtf8Lossy (by decide) (by decide),
      Text.count_fromUtf8Lossy (by decide) (by decide)] at hplus
    have hplus : out.count 0x2B = (decode (Text.bytes s)).count 0x2B := hplus
    omega

/-- A character of several bytes two places behind a `%` is cut; a plus sign and a digit are taken
for an octet. -/
theorem percentDecode_fails :
    percentDecode "%aé".toList = .error notCharBoundary ∧
      percentDecode "%+f".toList = .ok [Char.ofNat 15] ∧
      ¬ ∀ s, percentDecode s = .ok (Text.fromUtf8Lossy (decode (Text.bytes s))) := by
  have hcut : percentDecode "%aé".toList = .error notCharBoundary := by decide +kernel
  refine ⟨hcut, by decide +kernel, fun h => ?_⟩
  rw [h] at hcut
  cases hcut

end Brdns
