import Mathlib.Data.Nat.Bitwise
import Mathlib.Tactic.NormNum
import Mathlib.Tactic.Ring

/-! Big-endian octets of 16- and 32-bit words, as shifts and masks compute them. -/

namespace Lib.Word

private theorem or_eq_add (i : ℕ) {hi lo m : ℕ} (hm : 2 ^ i = m) (h : lo < m) :
    hi * m ||| lo = hi * m + lo := by
  subst hm
  rw [← Nat.shiftLeft_eq, Nat.shiftLeft_add_eq_or_of_lt h]

/-! ### Sixteen bits -/

def octets16 (v : UInt16) : List UInt8 := [(v >>> 8).toUInt8, (v &&& 0xFF).toUInt8]

theorem toNat_join16 (hi lo : UInt8) :
    ((hi.toUInt16 <<< 8) ||| lo.toUInt16).toNat = hi.toNat * 256 + lo.toNat := by
  have hhi := hi.toNat_lt
  have hlo := lo.toNat_lt
  have h : hi.toNat * 256 % 65536 = hi.toNat * 256 := by omega
  simp only [UInt16.toNat_or, UInt16.toNat_shiftLeft, UInt8.toNat_toUInt16, Nat.shiftLeft_eq,
    UInt16.toNat_ofNat, Nat.reduceMod, Nat.reducePow]
  rw [h, or_eq_add 8 (m := 256) (by norm_num) (by omega)]

theorem toNat_hi16 (v : UInt16) : (v >>> 8).toUInt8.toNat = v.toNat / 256 := by
  have hv := v.toNat_lt
  simp only [UInt16.toNat_toUInt8, UInt16.toNat_shiftRight, Nat.shiftRight_eq_div_pow,
    UInt16.toNat_ofNat, Nat.reduceMod, Nat.reducePow]
  omega

theorem toNat_lo16 (v : UInt16) : (v &&& 0xFF).toUInt8.toNat = v.toNat % 256 := by
  have h : v.toNat &&& 255 = v.toNat % 256 := Nat.and_two_pow_sub_one_eq_mod v.toNat 8
  simp only [UInt16.toNat_toUInt8, UInt16.toNat_and, UInt16.toNat_ofNat, Nat.reduceMod,
    Nat.reducePow, h]
  omega

theorem join_octets16 (v : UInt16) :
    ((v >>> 8).toUInt8.toUInt16 <<< 8) ||| (v &&& 0xFF).toUInt8.toUInt16 = v := by
  apply UInt16.toNat_inj.mp
  rw [toNat_join16, toNat_hi16, toNat_lo16]
  omega

theorem hi_join16 (hi lo : UInt8) : (((hi.toUInt16 <<< 8) ||| lo.toUInt16) >>> 8).toUInt8 = hi := by
  have hlo := lo.toNat_lt
  apply UInt8.toNat_inj.mp
  rw [toNat_hi16, toNat_join16]
  omega

theorem lo_join16 (hi lo : UInt8) :
    (((hi.toUInt16 <<< 8) ||| lo.toUInt16) &&& 0xFF).toUInt8 = lo := by
  have hlo := lo.toNat_lt
  apply UInt8.toNat_inj.mp
  rw [toNat_lo16, toNat_join16]
  omega

/-! ### Thirty-two bits -/

def octets32 (v : UInt32) : List UInt8 :=
  [((v >>> 24) &&& 0xFF).toUInt8, ((v >>> 16) &&& 0xFF).toUInt8, ((v >>> 8) &&& 0xFF).toUInt8,
    (v &&& 0xFF).toUInt8]

def join32 (b₀ b₁ b₂ b₃ : UInt8) : UInt32 :=
  (b₀.toUInt32 <<< 24) ||| (b₁.toUInt32 <<< 16) ||| (b₂.toUInt32 <<< 8) ||| b₃.toUInt32

private theorem place_mod {n m : ℕ} (h : n < 256) (hm : m ≤ 16777216) :
    n * m % 4294967296 = n * m := by
  have := Nat.mul_le_mul (Nat.le_of_lt_succ h) hm
  exact Nat.mod_eq_of_lt (by omega)

private theorem or_places (n₀ n₁ n₂ n₃ : ℕ) (h₀ : n₀ < 256) (h₁ : n₁ < 256) (h₂ : n₂ < 256)
    (h₃ : n₃ < 256) :
    n₀ * 16777216 % 4294967296 ||| n₁ * 65536 % 4294967296 ||| n₂ * 256 % 4294967296 ||| n₃ =
      ((n₀ * 256 + n₁) * 256 + n₂) * 256 + n₃ := by
  -- each word so far is a multiple of the place the next octet goes to
  have f₁ : n₀ * 16777216 + n₁ * 65536 = (n₀ * 256 + n₁) * 65536 := by ring
  have f₂ : (n₀ * 256 + n₁) * 65536 + n₂ * 256 = ((n₀ * 256 + n₁) * 256 + n₂) * 256 := by ring
  rw [place_mod h₀ le_rfl, place_mod h₁ (by norm_num), place_mod h₂ (by norm_num),
    or_eq_add 24 (by norm_num) (by omega), f₁, or_eq_add 16 (by norm_num) (by omega), f₂,
    or_eq_add 8 (by norm_num) h₃]

theorem toNat_join32 (b₀ b₁ b₂ b₃ : UInt8) :
    (join32 b₀ b₁ b₂ b₃).toNat =
      ((b₀.toNat * 256 + b₁.toNat) * 256 + b₂.toNat) * 256 + b₃.toNat := by
  rw [← or_places _ _ _ _ b₀.toNat_lt b₁.toNat_lt b₂.toNat_lt b₃.toNat_lt]
  simp only [join32, UInt32.toNat_or, UInt32.toNat_shiftLeft, UInt8.toNat_toUInt32,
    Nat.shiftLeft_eq, UInt32.toNat_ofNat, Nat.reduceMod, Nat.reducePow]

theorem toNat_octet32 (v : UInt32) (i : UInt32) :
    ((v >>> i) &&& 0xFF).toUInt8.toNat = v.toNat / 2 ^ (i.toNat % 32) % 256 := by
  have h (n : ℕ) : n &&& 255 = n % 256 := Nat.and_two_pow_sub_one_eq_mod n 8
  simp only [UInt32.toNat_toUInt8, UInt32.toNat_and, UInt32.toNat_shiftRight,
    Nat.shiftRight_eq_div_pow, UInt32.toNat_ofNat, Nat.reduceMod, Nat.reducePow, h]
  omega

theorem toNat_lo32 (v : UInt32) : (v &&& 0xFF).toUInt8.toNat = v.toNat % 256 := by
  have h : v.toNat &&& 255 = v.toNat % 256 := Nat.and_two_pow_sub_one_eq_mod v.toNat 8
  simp only [UInt32.toNat_toUInt8, UInt32.toNat_and, UInt32.toNat_ofNat, Nat.reduceMod,
    Nat.reducePow, h]
  omega

theorem join_octets32 (v : UInt32) :
    join32 ((v >>> 24) &&& 0xFF).toUInt8 ((v >>> 16) &&& 0xFF).toUInt8
      ((v >>> 8) &&& 0xFF).toUInt8 (v &&& 0xFF).toUInt8 = v := by
  have hv := v.toNat_lt
  apply UInt32.toNat_inj.mp
  rw [toNat_join32, toNat_octet32, toNat_octet32, toNat_octet32, toNat_lo32]
  simp only [UInt32.toNat_ofNat, Nat.reduceMod, Nat.reducePow]
  omega

/-- The octets of a joined word are those it was joined from. -/
theorem octets32_join32 (b₀ b₁ b₂ b₃ : UInt8) :
    octets32 (join32 b₀ b₁ b₂ b₃) = [b₀, b₁, b₂, b₃] := by
  have h₀ := b₀.toNat_lt
  have h₁ := b₁.toNat_lt
  have h₂ := b₂.toNat_lt
  have h₃ := b₃.toNat_lt
  simp only [octets32, List.cons.injEq, and_true]
  refine ⟨?_, ?_, ?_, ?_⟩ <;> apply UInt8.toNat_inj.mp
  · rw [toNat_octet32, toNat_join32]
    simp only [UInt32.toNat_ofNat, Nat.reduceMod, Nat.reducePow]
    omega
  · rw [toNat_octet32, toNat_join32]
    simp only [UInt32.toNat_ofNat, Nat.reduceMod, Nat.reducePow]
    omega
  · rw [toNat_octet32, toNat_join32]
    simp only [UInt32.toNat_ofNat, Nat.reduceMod, Nat.reducePow]
    omega
  · rw [toNat_lo32, toNat_join32]
    omega

end Lib.Word
