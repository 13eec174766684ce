import Brdns.Lib.Ascii

/-! Percent encoding: octets written as `%` and two hexadecimal digits, and the octets that a text
with such triplets stands for. -/

namespace Lib.Percent

def percent : UInt8 := 0x25

/-- The value of an octet that is the code of a hexadecimal digit. -/
def hexDigit (b : UInt8) : Option ℕ :=
  if 0x30 ≤ b ∧ b ≤ 0x39 then some (b.toNat - 0x30)
  else if 0x41 ≤ b ∧ b ≤ 0x46 then some (b.toNat - 0x37)
  else if 0x61 ≤ b ∧ b ≤ 0x66 then some (b.toNat - 0x57)
  else none

/-- Each `%` with two digits behind it becomes an octet, from left to right; other octets stay. -/
def decode : List UInt8 → List UInt8
  | [] => []
  | [b] => [b]
  | [b, x] => [b, x]
  | b :: x :: y :: l =>
    if b = percent then
      match hexDigit x, hexDigit y with
      | some high, some low => UInt8.ofNat (16 * high + low) :: decode l
      | _, _ => b :: decode (x :: y :: l)
    else b :: decode (x :: y :: l)

theorem decode_cons_of_ne {b : UInt8} (hb : b ≠ percent) (l : List UInt8) :
    decode (b :: l) = b :: decode l := by
  rcases l with _ | ⟨x, _ | ⟨y, l⟩⟩
  · rfl
  · rfl
  · rw [decode, if_neg hb]

theorem decode_append {p : List UInt8} (hp : ∀ b ∈ p, b ≠ percent) (l : List UInt8) :
    decode (p ++ l) = p ++ decode l := by
  induction p with
  | nil => rfl
  | cons b p ih =>
    obtain ⟨hb, hp⟩ := List.forall_mem_cons.mp hp
    rw [List.cons_append, decode_cons_of_ne hb, ih hp, List.cons_append]

theorem decode_triplet {x y : UInt8} {high low : ℕ} (hx : hexDigit x = some high)
    (hy : hexDigit y = some low) (l : List UInt8) :
    decode (percent :: x :: y :: l) = UInt8.ofNat (16 * high + low) :: decode l := by
  rw [decode, if_pos rfl, hx, hy]

/-- A `%` without two digits behind it stays. -/
theorem decode_percent {l : List UInt8}
    (h : ∀ x y l', l = x :: y :: l' → hexDigit x = none ∨ hexDigit y = none) :
    decode (percent :: l) = percent :: decode l := by
  rcases l with _ | ⟨x, _ | ⟨y, l⟩⟩
  · rfl
  · rfl
  · rw [decode, if_pos rfl]
    rcases h x y l rfl with hx | hy
    · rw [hx]
    · rw [hy]
      cases hexDigit x <;> rfl

/-! ### Digits as characters -/

theorem hexDigit_of_not_ascii {b : UInt8} (h : 128 ≤ b.toNat) : hexDigit b = none := by
  simp only [hexDigit, UInt8.le_iff_toNat_le]
  split_ifs <;> simp_all <;> omega

theorem toDigit_of_not_ascii {c : Char} (h : 128 ≤ c.toNat) : Text.toDigit 16 c = none := by
  rw [Text.toDigit, Text.not_digit_of_not_ascii h, Text.not_lower_of_not_ascii h,
    Text.not_upper_of_not_ascii h]
  rfl

/-- The two notions of a digit agree. -/
theorem hexDigit_ofNat {c : Char} (h : c.toNat < 128) :
    hexDigit (UInt8.ofNat c.toNat) = Text.toDigit 16 c := by
  have hall : ∀ n < 128, hexDigit (UInt8.ofNat n) = Text.toDigit 16 (Char.ofNat n) := by
    decide +kernel
  rw [hall _ h, Char.ofNat_toNat]

theorem toDigit_lt {c : Char} {d : ℕ} (h : Text.toDigit 16 c = some d) : d < 16 := by
  simp only [Text.toDigit, Option.ite_none_right_eq_some] at h
  rw [← Option.some.inj h.2]
  exact h.1

end Lib.Percent
