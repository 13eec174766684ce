import Brdns.Lib.Ascii
import Brdns.Spec.Http
import Brdns.Spec.Identity

/-! The hostname of an account is one label in front of the base domain: what `account_from_sni`
reads from an SNI, and where it stops at the letter case of the name. -/

namespace Brdns

open Lib

abbrev bareSni (sni : Text) : Text := Text.trimEndMatches '.' sni

/-- The base domain without the dots around it. -/
abbrev bareDomain (domain : Text) : Text := Text.trimMatches '.' domain

theorem stripSuffix_eq_some {suffix s rest : Text} :
    Text.stripSuffix suffix s = some rest ↔ s = rest ++ suffix := by
  simp [Text.stripSuffix, List.dropSuffix?_eq_some_iff]

theorem accountFromSni_eq_some (s d a : Text) : accountFromSni s d = some a ↔
    bareDomain d ≠ [] ∧ a ≠ [] ∧ '.' ∉ a ∧ bareSni s = a ++ '.' :: bareDomain d := by
  simp only [accountFromSni]
  constructor
  · intro h
    split_ifs at h with hempty heq
    rw [Bool.or_eq_true, not_or, List.isEmpty_iff, List.isEmpty_iff] at hempty
    cases hstrip : Text.stripSuffix ('.' :: bareDomain d) (bareSni s) with
    | none => simp [hstrip] at h
    | some account =>
      simp only [hstrip, Option.ite_none_left_eq_some, Bool.or_eq_true, not_or,
        List.isEmpty_iff, List.contains_iff_mem, Option.some.injEq] at h
      obtain ⟨⟨hne, hdot⟩, rfl⟩ := h
      exact ⟨hempty.1, hne, hdot, stripSuffix_eq_some.mp hstrip⟩
  · rintro ⟨hd, hne, hdot, hs⟩
    have hstrip := stripSuffix_eq_some.mpr hs
    have hlong : bareSni s ≠ bareDomain d := by
      intro heq
      have hlen := congrArg List.length hs
      rw [heq, List.length_append, List.length_cons] at hlen
      omega
    have hnil : bareSni s ≠ [] := by
      rw [hs]
      simp
    rw [if_neg (by simp [hd, hnil]), if_neg hlong, hstrip]
    simp [hne, hdot]

/-! ### One hostname for each account -/

theorem valid_number {a : Text} (h : isValidAccountNumber a = true) :
    a ≠ [] ∧ ∀ c ∈ a, (c.isAlphanum || c == '-') = true := by
  simp only [isValidAccountNumber, Bool.and_eq_true, Bool.not_eq_true', List.isEmpty_eq_false_iff,
    List.all_eq_true] at h
  exact ⟨h.1.1, h.2⟩

theorem valid_label {a : Text} (h : isValidAccountNumber a = true) : a ≠ [] ∧ '.' ∉ a := by
  obtain ⟨hne, hall⟩ := valid_number h
  exact ⟨hne, fun hdot => absurd (hall '.' hdot) (by decide)⟩

theorem trimEnd_replicate (s : Text) (k : ℕ) :
    Text.trimEndMatches '.' (s ++ List.replicate k '.') = Text.trimEndMatches '.' s := by
  induction k with
  | zero => simp
  | succ k ih =>
    rw [List.replicate_succ', ← List.append_assoc, Text.trimEndMatches,
      List.rdropWhile_concat_pos _ _ _ (by simp)]
    exact ih

theorem trimEnd_append {s t : Text} (h : Text.trimEndMatches '.' t ≠ []) :
    Text.trimEndMatches '.' (s ++ t) = s ++ Text.trimEndMatches '.' t := by
  induction t using List.reverseRecOn with
  | nil => exact absurd rfl h
  | append_singleton t c ih =>
    by_cases hc : c = '.'
    · subst hc
      have hstep (u : Text) :
          Text.trimEndMatches '.' (u ++ ['.']) = Text.trimEndMatches '.' u :=
        List.rdropWhile_concat_pos _ _ _ (by simp)
      rw [hstep] at h
      rw [← List.append_assoc, hstep, hstep, ih h]
    · have hstay (u : Text) : Text.trimEndMatches '.' (u ++ [c]) = u ++ [c] :=
        List.rdropWhile_concat_neg _ _ _ (by simpa using hc)
      rw [← List.append_assoc, hstay, hstay, List.append_assoc]

/-- The hostname of an account, with dots behind it, names the account. -/
theorem accountFromSni_hostname {a d : Text} (ha : a ≠ []) (hdot : '.' ∉ a)
    (hd : bareDomain d ≠ []) (hlead : d.head? ≠ some '.') (k : ℕ) :
    accountFromSni (a ++ '.' :: d ++ List.replicate k '.') d = some a := by
  have htrim : bareDomain d = Text.trimEndMatches '.' d := by
    have hstart : Text.trimStartMatches '.' d = d := by
      rw [Text.trimStartMatches, List.dropWhile_eq_self_iff]
      intro hpos
      rw [List.head?_eq_getElem?, List.getElem?_eq_getElem hpos] at hlead
      simpa using hlead
    rw [bareDomain, Text.trimMatches, hstart]
  rw [accountFromSni_eq_some]
  refine ⟨hd, ha, hdot, ?_⟩
  rw [htrim] at hd ⊢
  have hcons : Text.trimEndMatches '.' ('.' :: d) = '.' :: Text.trimEndMatches '.' d :=
    trimEnd_append (s := ['.']) hd
  rw [bareSni, trimEnd_replicate, trimEnd_append, hcons]
  rw [hcons]
  exact List.cons_ne_nil _ _

/-- An SNI names an account exactly when it is that one label in front of the base domain; every
account number has its hostnames, and no two of them differ but in trailing dots. -/
theorem accountFromSni_bijective :
    (∀ s d a, accountFromSni s d = some a ↔
      bareDomain d ≠ [] ∧ a ≠ [] ∧ '.' ∉ a ∧ bareSni s = a ++ '.' :: bareDomain d) ∧
    (∀ a d, isValidAccountNumber a = true → bareDomain d ≠ [] → d.head? ≠ some '.' →
      ∀ k, accountFromSni (a ++ '.' :: d ++ List.replicate k '.') d = some a) ∧
    ∀ s₁ s₂ d a, accountFromSni s₁ d = some a → accountFromSni s₂ d = some a →
      bareSni s₁ = bareSni s₂ := by
  refine ⟨accountFromSni_eq_some, ?_, ?_⟩
  · intro a d ha hd hlead k
    obtain ⟨hne, hdot⟩ := valid_label ha
    exact accountFromSni_hostname hne hdot hd hlead k
  · intro s₁ s₂ d a h₁ h₂
    obtain ⟨-, -, -, hs₁⟩ := (accountFromSni_eq_some s₁ d a).mp h₁
    obtain ⟨-, -, -, hs₂⟩ := (accountFromSni_eq_some s₂ d a).mp h₂
    rw [hs₁, hs₂]

/-- A domain that occurs in the account's own label. -/
theorem accountFromSni_bijective_com :
    accountFromSni "com.com..".toList "com".toList = some "com".toList :=
  accountFromSni_bijective.2.1 "com".toList "com".toList (by decide +kernel) (by decide +kernel)
    (by decide) 2

/-! ### Letter case -/

open Text (SameCase)

/-- The SNI is one label in front of the base domain, but for the case of its letters. -/
def AccountHostname (s d : Text) : Prop :=
  bareDomain d ≠ [] ∧
    ∃ a, a ≠ [] ∧ '.' ∉ a ∧ SameCase (bareSni s) (a ++ '.' :: bareDomain d)

def EndsInDomain (s d : Text) : Prop := '.' :: bareDomain d <:+ bareSni s

section

variable {s s₁ s₂ d d₁ d₂ : Text}

theorem bareSni_sameCase (h : SameCase s₁ s₂) : SameCase (bareSni s₁) (bareSni s₂) := by
  rw [SameCase, ← Text.trimEndMatches_toAsciiLowercase (by decide),
    ← Text.trimEndMatches_toAsciiLowercase (by decide), h]

theorem bareDomain_sameCase (h : SameCase d₁ d₂) : SameCase (bareDomain d₁) (bareDomain d₂) := by
  rw [SameCase, ← Text.trimMatches_toAsciiLowercase (by decide),
    ← Text.trimMatches_toAsciiLowercase (by decide), h]

theorem sameCase_nil_iff {t : Text} (h : SameCase s t) : s = [] ↔ t = [] := by
  have hlen := congrArg List.length h
  simp only [Text.toAsciiLowercase, List.length_map] at hlen
  rw [← List.length_eq_zero_iff, hlen, List.length_eq_zero_iff]

theorem dot_mem_lowercase_iff (a : Text) : '.' ∈ Text.toAsciiLowercase a ↔ '.' ∈ a := by
  simp only [Text.toAsciiLowercase, List.mem_map]
  constructor
  · rintro ⟨c, hc, heq⟩
    exact (Text.toLower_eq_iff (by decide)).mp heq ▸ hc
  · exact fun h => ⟨'.', h, rfl⟩

theorem dot_mem_sameCase {t : Text} (h : SameCase s t) : '.' ∈ s ↔ '.' ∈ t := by
  rw [← dot_mem_lowercase_iff s, h, dot_mem_lowercase_iff]

theorem lowercase_dot (e : Text) :
    Text.toAsciiLowercase ('.' :: e) = '.' :: Text.toAsciiLowercase e := rfl

/-- Behind domains of the same letters stand accounts of the same letters. -/
theorem label_sameCase {a b : Text} (hd : SameCase d₁ d₂)
    (h : SameCase (a ++ '.' :: d₁) (b ++ '.' :: d₂)) : SameCase a b := by
  rw [SameCase, Text.toAsciiLowercase_append, Text.toAsciiLowercase_append, lowercase_dot,
    lowercase_dot, hd] at h
  exact List.append_cancel_right h

theorem AccountHostname.congr (hs : SameCase s₁ s₂) (hd : SameCase d₁ d₂)
    (h : AccountHostname s₁ d₁) : AccountHostname s₂ d₂ := by
  obtain ⟨hne, a, ha, hdot, heq⟩ := h
  have hd' := bareDomain_sameCase hd
  refine ⟨fun hnil => hne ((sameCase_nil_iff hd').mpr hnil), a, ha, hdot, ?_⟩
  have hs' := (bareSni_sameCase hs).symm.trans heq
  rw [SameCase, hs', Text.toAsciiLowercase_append, Text.toAsciiLowercase_append, lowercase_dot,
    lowercase_dot, hd']

theorem accountHostname_of_some {a : Text} (h : accountFromSni s d = some a) :
    AccountHostname s d := by
  obtain ⟨hne, ha, hdot, heq⟩ := (accountFromSni_eq_some s d a).mp h
  exact ⟨hne, a, ha, hdot, congrArg Text.toAsciiLowercase heq⟩

/-- Among the hostnames of accounts only the configured spelling of the domain is recognized. -/
theorem AccountHostname.isSome_iff (h : AccountHostname s d) :
    (accountFromSni s d).isSome = true ↔ EndsInDomain s d := by
  constructor
  · intro hsome
    obtain ⟨a, ha⟩ := Option.isSome_iff_exists.mp hsome
    obtain ⟨-, -, -, heq⟩ := (accountFromSni_eq_some s d a).mp ha
    exact ⟨a, heq.symm⟩
  · rintro ⟨b, hb⟩
    obtain ⟨hne, a, ha, hdot, heq⟩ := h
    have hba : SameCase b a := label_sameCase rfl (hb ▸ heq)
    have hb' : accountFromSni s d = some b := by
      rw [accountFromSni_eq_some]
      exact ⟨hne, fun hnil => ha ((sameCase_nil_iff hba).mp hnil),
        fun hmem => hdot ((dot_mem_sameCase hba).mp hmem), hb.symm⟩
    rw [hb']
    rfl

theorem account_sameCase {a₁ a₂ : Text} (hs : SameCase s₁ s₂) (hd : SameCase d₁ d₂)
    (h₁ : accountFromSni s₁ d₁ = some a₁) (h₂ : accountFromSni s₂ d₂ = some a₂) :
    SameCase a₁ a₂ := by
  obtain ⟨-, -, -, heq₁⟩ := (accountFromSni_eq_some s₁ d₁ a₁).mp h₁
  obtain ⟨-, -, -, heq₂⟩ := (accountFromSni_eq_some s₂ d₂ a₂).mp h₂
  have hs' := bareSni_sameCase hs
  rw [heq₁, heq₂] at hs'
  exact label_sameCase (bareDomain_sameCase hd) hs'

end

/-- Two spellings of one SNI name the same account, or both none, exactly when they agree on
whether they end in the domain as it is configured; only the hostnames of accounts are concerned. -/
theorem accountFromSni_sameCase_iff (s₁ s₂ d₁ d₂ : Text) (hs : SameCase s₁ s₂)
    (hd : SameCase d₁ d₂) :
    (((accountFromSni s₁ d₁).isSome = true ↔ (accountFromSni s₂ d₂).isSome = true) ∧
      ∀ a₁ a₂, accountFromSni s₁ d₁ = some a₁ → accountFromSni s₂ d₂ = some a₂ →
        SameCase a₁ a₂) ↔
      (AccountHostname s₁ d₁ → (EndsInDomain s₁ d₁ ↔ EndsInDomain s₂ d₂)) := by
  rw [and_iff_left fun a₁ a₂ h₁ h₂ => account_sameCase hs hd h₁ h₂]
  by_cases hhost : AccountHostname s₁ d₁
  · rw [hhost.isSome_iff, (hhost.congr hs hd).isSome_iff]
    exact ⟨fun h _ => h, fun h => h hhost⟩
  · refine ⟨fun _ h => absurd h hhost, fun _ => ⟨fun h => ?_, fun h => ?_⟩⟩
    · obtain ⟨a, ha⟩ := Option.isSome_iff_exists.mp h
      exact absurd (accountHostname_of_some ha) hhost
    · obtain ⟨a, ha⟩ := Option.isSome_iff_exists.mp h
      exact absurd ((accountHostname_of_some ha).congr hs.symm hd.symm) hhost

/-- Capitals in the account's own label are no obstacle. -/
theorem accountFromSni_sameCase_iff_acct :
    (accountFromSni "ACCT.dns.example.com".toList "dns.example.com".toList).isSome = true ↔
      (accountFromSni "acct.dns.example.com".toList "dns.example.com".toList).isSome = true :=
  ((accountFromSni_sameCase_iff "ACCT.dns.example.com".toList "acct.dns.example.com".toList
    "dns.example.com".toList "dns.example.com".toList (by decide +kernel) rfl).mpr fun _ => by
      unfold EndsInDomain
      decide +kernel).1

/-- Capitals in the domain move a client to the fallback account. -/
theorem accountFromSni_capitals :
    SameCase "acct.DNS.example.com".toList "acct.dns.example.com".toList ∧
    accountFromSni "acct.DNS.example.com".toList "dns.example.com".toList = none ∧
    accountFromSni "acct.dns.example.com".toList "dns.example.com".toList = some "acct".toList ∧
    (DotApp.mk "dns.example.com".toList "guest".toList).accountFor
      (some "acct.DNS.example.com".toList) = "guest".toList ∧
    (DohReceiver.mk ⟨"dns.example.com".toList, "guest".toList⟩).accountFor
      (some "acct.DNS.example.com".toList) = "guest".toList := by
  decide +kernel

end Brdns
