import Brdns.Lib.Ascii
import Brdns.Lib.Sampling
import Brdns.Spec.Http

/-! Generated account numbers. The octets the random source gives are sampled for digits, 25
octets for each digit and six for none, so of all runs of octets as many generate one number of 16
digits as another. -/

namespace Brdns

open Lib Sampling

def digit (b : UInt8) : Option (Fin 10) :=
  if b < 250 then some (Fin.ofNat 10 b.toNat) else none

def written (digits : List (Fin 10)) : Text := digits.map fun d => Nat.digitChar d.val

theorem digitChar_octet (b : UInt8) :
    Nat.digitChar (b % 10).toNat = Nat.digitChar (Fin.ofNat 10 b.toNat).val := by
  rw [Fin.val_ofNat, UInt8.toNat_mod]
  rfl

/-- The loop samples the digits that are missing. -/
theorem generateDigits_eq (random : List UInt8) (out : Text) (k : ℕ) (hk : out.length + k = 16) :
    (generateDigits out random).toOption =
      (sample digit k random).map fun digits => out ++ written digits := by
  induction random generalizing out k with
  | nil =>
    cases k with
    | zero => simp [generateDigits, sample, written, Except.toOption, ← hk]
    | succ k =>
      have hshort : out.length < 16 := by omega
      simp [generateDigits, sample, Except.toOption, hshort]
  | cons b random ih =>
    cases k with
    | zero => simp [generateDigits, sample, written, Except.toOption, ← hk]
    | succ k =>
      have hshort : out.length < 16 := by omega
      rw [generateDigits, if_pos hshort]
      by_cases hb : b < 250
      · rw [if_pos hb, ih _ k (by rw [List.length_append, List.length_singleton]; omega)]
        simp only [sample, digit, if_pos hb, Option.map_map, digitChar_octet]
        congr 1
        funext digits
        simp [written]
      · rw [if_neg hb, ih _ (k + 1) hk]
        simp only [sample, digit, if_neg hb]

theorem generateAccountNumber_eq (random : List UInt8) :
    (generateAccountNumber random).toOption = (sample digit 16 random).map written := by
  rw [generateAccountNumber, generateDigits_eq random [] 16 rfl]
  rfl

theorem digitChar_injective (d e : Fin 10) (h : Nat.digitChar d.val = Nat.digitChar e.val) :
    d = e := by
  revert d e
  decide

theorem written_injective : Function.Injective written :=
  List.map_injective_iff.mpr fun d e h => digitChar_injective d e h

theorem exists_digit {c : Char} (hc : c.isDigit = true) :
    ∃ d : Fin 10, Nat.digitChar d.val = c := by
  have hrange : 48 ≤ c.toNat ∧ c.toNat ≤ 57 := Char.isDigit_iff_toNat.mp hc
  have hd : c.toNat - 48 < 10 := by omega
  refine ⟨⟨c.toNat - 48, hd⟩, Char.toNat_inj.mp ?_⟩
  rw [Nat.toNat_digitChar_of_lt_ten hd]
  exact Nat.add_sub_cancel' hrange.1

/-- Every text of digits is a number as it is written. -/
theorem exists_written {number : Text} (hdigits : ∀ c ∈ number, c.isDigit = true) :
    ∃ digits, written digits = number := by
  induction number with
  | nil => exact ⟨[], rfl⟩
  | cons c number ih =>
    obtain ⟨d, rfl⟩ := exists_digit (hdigits c List.mem_cons_self)
    obtain ⟨digits, rfl⟩ := ih fun c hc => hdigits c (List.mem_cons_of_mem _ hc)
    exact ⟨d :: digits, rfl⟩

theorem isDigit_digitChar : ∀ d : Fin 10, (Nat.digitChar d.val).isDigit = true := by
  decide

theorem weight_digit : ∀ d, weight digit d = 25 := by
  decide +kernel

theorem rejected_digit : rejected digit = 6 := by
  decide +kernel

theorem card_octet : Fintype.card UInt8 = 256 := by
  rw [← FinEnum.card_eq_fintypeCard, FinEnum.card_UInt8]
  rfl

structure SixteenDigits (number : Text) : Prop where
  length : number.length = 16
  digits : ∀ c ∈ number, c.isDigit = true

/-- What is generated is 16 digits, which the management API takes for an account number. -/
theorem generated_number {random : List UInt8} {number : Text}
    (h : generateAccountNumber random = .ok number) :
    SixteenDigits number ∧ isValidAccountNumber number = true := by
  have hsample := generateAccountNumber_eq random
  rw [h] at hsample
  obtain ⟨digits, hdigits, rfl⟩ := Option.map_eq_some_iff.mp hsample.symm
  have hlength : (written digits).length = 16 := by
    rw [written, List.length_map, sample_length hdigits]
  have hdigit : ∀ c ∈ written digits, c.isDigit = true := by
    intro c hc
    obtain ⟨d, -, rfl⟩ := List.mem_map.mp hc
    exact isDigit_digitChar d
  refine ⟨⟨hlength, hdigit⟩, ?_⟩
  have hascii : Text.IsAscii (written digits) := by
    intro c hc
    have hrange : 48 ≤ c.toNat ∧ c.toNat ≤ 57 := Char.isDigit_iff_toNat.mp (hdigit c hc)
    omega
  have hnonempty : (written digits).isEmpty = false := by
    rw [List.isEmpty_eq_false_iff, ← List.length_pos_iff, hlength]
    decide
  have hchars : ((written digits).all fun c => c.isAlphanum || c == '-') = true :=
    List.all_eq_true.mpr fun c hc => by rw [Char.isAlphanum, hdigit c hc]; simp
  rw [isValidAccountNumber, Text.len_of_ascii hascii, hlength, hnonempty, hchars]
  rfl

/-- Account numbers are generated without bias. What comes out of the random source's octets is
always a valid number of 16 digits. Of the runs of `n` octets as many generate one such number as
another, and `10^16` times as many are all runs but those that are too short, of which there are
at most `2^16 * 131^n`. -/
theorem account_numbers_uniform (n : ℕ) (number : Text) (hnumber : SixteenDigits number) :
    (∀ random out, generateAccountNumber random = .ok out →
      SixteenDigits out ∧ isValidAccountNumber out = true) ∧
    10 ^ 16 * count n (fun random => (generateAccountNumber random).toOption = some number) +
        count n (fun random => (generateAccountNumber random).toOption = none) = 256 ^ n ∧
      count n (fun random => (generateAccountNumber random).toOption = none) ≤
        2 ^ 16 * 131 ^ n := by
  obtain ⟨digits, rfl⟩ := exists_written hnumber.digits
  have hlength := hnumber.length
  rw [written, List.length_map] at hlength
  have hhits : count n (fun random =>
      (generateAccountNumber random).toOption = some (written digits)) = hits digit n digits := by
    refine count_congr n fun random => ?_
    rw [generateAccountNumber_eq, hlength, Option.map_eq_some_iff]
    constructor
    · rintro ⟨digits', hsample, hwritten⟩
      rw [hsample, written_injective hwritten]
    · intro hsample
      exact ⟨digits, hsample, rfl⟩
  have hfails : count n (fun random => (generateAccountNumber random).toOption = none) =
      fails digit n 16 := by
    refine count_congr n fun random => ?_
    rw [generateAccountNumber_eq, Option.map_eq_none_iff]
  have htotal := hits_add_fails digit weight_digit n digits
  have hbound := fails_le digit n 16
  rw [hlength, Fintype.card_fin, card_octet] at htotal
  rw [rejected_digit, card_octet, show 256 + 6 = 2 * 131 from rfl, mul_pow,
    Nat.mul_left_comm] at hbound
  rw [hhits, hfails]
  exact ⟨fun random out => generated_number, htotal,
    Nat.le_of_mul_le_mul_left hbound (Nat.two_pow_pos n)⟩

theorem sevens : SixteenDigits (List.replicate 16 '7') :=
  ⟨rfl, fun c hc => by rw [List.eq_of_mem_replicate hc]; rfl⟩

/-- Some number, from runs of 32 octets. -/
theorem account_numbers_uniform_some : ∃ number, SixteenDigits number ∧
    10 ^ 16 * count 32 (fun random => (generateAccountNumber random).toOption = some number) +
        count 32 (fun random => (generateAccountNumber random).toOption = none) = 256 ^ 32 :=
  ⟨List.replicate 16 '7', sevens, (account_numbers_uniform 32 _ sevens).2.1⟩

end Brdns
