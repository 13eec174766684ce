import Brdns.Lib.Lines
import Brdns.Proofs.Listed

/-! What a feed parser returns can be written down in the syntax of any feed and parsed again: one
pass of the sanitizer reaches a fixpoint, and its alphabet has no character that a line parser
treats in a special way. -/

namespace Brdns

open Lib

namespace Blocklist

/-! ### Sanitizing twice -/

theorem not_isWhitespace_of_isDomainChar {c : Char} (h : isDomainChar c = true) :
    Text.isWhitespace c = false := by
  have hnat := isDomainChar_toNat h
  simp only [Text.isWhitespace, Bool.or_eq_false_iff, Bool.and_eq_false_iff,
    decide_eq_false_iff_not, beq_eq_false_iff_ne]
  omega

section

variable {d : Text} (h : Sanitized d)

include h

theorem Sanitized.not_mem {c : Char} (hc : isDomainChar c = false) : c ∉ d := by
  intro hmem
  rw [h.chars c hmem] at hc
  cases hc

theorem Sanitized.not_isWhitespace : ∀ c ∈ d, Text.isWhitespace c = false :=
  fun c hc => not_isWhitespace_of_isDomainChar (h.chars c hc)

theorem Sanitized.trimEnd : Text.trimEndMatches '.' d = d :=
  List.rdropWhile_eq_self_iff.mpr fun hne => by simpa using h.last hne

theorem Sanitized.trimStar : Text.trimStartMatchesStr ['*', '.'] d = d := by
  have hstar : '*' ∉ d := h.not_mem (by decide)
  exact Text.trimStartMatchesStr_eq_self fun hp => hstar (hp.subset List.mem_cons_self)

end

/-- One pass is enough. -/
theorem sanitize_idem {token d : Text} (h : sanitize token = some d) : sanitize d = some d := by
  have hd := sanitized h
  have hpass : sanitize d = if d.isEmpty || Text.len d > 253 then none
      else if !d.all isDomainChar then none
      else if !d.contains '.' || !d.any Char.isAlpha then none else some d := by
    simp only [sanitize, Text.trim_of_forall hd.not_isWhitespace, hd.lower, hd.trimStar, hd.trimEnd]
  rw [hpass]
  simp only [sanitize] at h
  generalize Text.trimEndMatches '.' (Text.trimStartMatchesStr ['*', '.']
    (Text.toAsciiLowercase (Text.trim token))) = domain at h
  have heq : domain = d := by
    split_ifs at h
    exact Option.some.inj h
  rwa [heq] at h

/-! ### Rendering -/

def zeroAddress : Text := ['0', '.', '0', '.', '0', '.', '0']

def renderDomain (format : FeedFormat) (d : Text) : Text :=
  match format with
  | .Plain => d
  | .Hosts => zeroAddress ++ ' ' :: d
  | .Adblock => '|' :: '|' :: d ++ ['^']

section

variable {d : Text} (h : Sanitized d)

include h

theorem Sanitized.not_mem_getLast {c : Char} (hc : isDomainChar c = false) (s : Text) :
    (s ++ d).getLast? ≠ some c := by
  rw [List.getLast?_append_of_ne_nil _ h.ne_nil]
  exact fun hlast => h.not_mem hc (List.mem_of_mem_getLast? hlast)

theorem renderDomain_isLine (format : FeedFormat) : Text.IsLine (renderDomain format d) := by
  have hfeed : '\n' ∉ d := h.not_mem (by decide)
  cases format with
  | Plain => exact ⟨h.ne_nil, hfeed, h.not_mem_getLast (by decide) []⟩
  | Hosts =>
    refine ⟨by simp [renderDomain], by simp [renderDomain, zeroAddress, hfeed], ?_⟩
    have hlast := h.not_mem_getLast (c := '\r') (by decide) (zeroAddress ++ [' '])
    rwa [List.append_assoc, List.singleton_append] at hlast
  | Adblock =>
    refine ⟨by simp [renderDomain], by simp [renderDomain, hfeed], ?_⟩
    rw [renderDomain, List.getLast?_concat]
    decide

theorem lineTokens_plainLine : lineTokens .Plain d = [d] := by
  have htrim := Text.trim_of_forall h.not_isWhitespace
  have hhash : '#' ∉ d := h.not_mem (by decide)
  have hhead : d.head? ≠ some '#' := fun hd => hhash (List.mem_of_mem_head? hd)
  simp [lineTokens, htrim, h.ne_nil, hhead, Text.split_of_not_mem hhash]

theorem lineTokens_hostsLine : lineTokens .Hosts (zeroAddress ++ ' ' :: d) = [d] := by
  have hline : Text.trim (zeroAddress ++ ' ' :: d) = zeroAddress ++ ' ' :: d := by
    refine Text.trim_eq_self (fun c hc => ?_) fun c hc => ?_
    · cases hc
      decide
    · have hlast : (zeroAddress ++ ' ' :: d).getLast? = d.getLast? := by
        rw [List.getLast?_append_of_ne_nil _ (List.cons_ne_nil _ _)]
        exact List.getLast?_append_of_ne_nil [' '] h.ne_nil
      rw [hlast] at hc
      exact h.not_isWhitespace c (List.mem_of_mem_getLast? hc)
  have hwords : Text.splitWhitespace (zeroAddress ++ ' ' :: d) = [zeroAddress, d] := by
    rw [Text.splitWhitespace_append (by decide),
      Text.splitWhitespace_word h.ne_nil h.not_isWhitespace,
      Text.splitWhitespace_word (by decide) (by simp [zeroAddress, Text.isWhitespace])]
    rfl
  simp only [lineTokens, hline, hwords]
  rfl

theorem lineTokens_adblockLine : lineTokens .Adblock ('|' :: '|' :: d ++ ['^']) = [d] := by
  have hline : Text.trim ('|' :: '|' :: d ++ ['^']) = '|' :: '|' :: d ++ ['^'] := by
    refine Text.trim_eq_self (fun c hc => ?_) fun c hc => ?_
    · cases hc
      decide
    · rw [List.getLast?_concat] at hc
      cases hc
      decide
  have hstrip : Text.stripPrefix ['|', '|'] ('|' :: '|' :: d ++ ['^']) = some (d ++ ['^']) :=
    Text.stripPrefix_eq_some.mpr rfl
  have hexception : Text.stripPrefix ['@', '@'] ('|' :: '|' :: d ++ ['^']) = none := by
    rw [Text.stripPrefix_eq_none, List.cons_append, List.cons_prefix_cons]
    exact fun h => absurd h.1 (by decide)
  have hcut : (d ++ ['^']).takeWhile (fun c => c != '^' && c != '$' && c != '/') = d := by
    have hall : ∀ c ∈ d, (c != '^' && c != '$' && c != '/') = true := by
      intro c hc
      have hcaret : '^' ∉ d := h.not_mem (by decide)
      have hdollar : '$' ∉ d := h.not_mem (by decide)
      have hslash : '/' ∉ d := h.not_mem (by decide)
      simp only [Bool.and_eq_true, bne_iff_ne]
      exact ⟨⟨fun heq => hcaret (heq ▸ hc), fun heq => hdollar (heq ▸ hc)⟩,
        fun heq => hslash (heq ▸ hc)⟩
    rw [List.takeWhile_append_of_pos hall]
    simp
  simp only [lineTokens, hline, hstrip, hexception]
  simp [hcut]

/-- The line parser finds the domain and nothing else. -/
theorem lineTokens_render (format : FeedFormat) :
    lineTokens format (renderDomain format d) = [d] := by
  cases format with
  | Plain => exact lineTokens_plainLine h
  | Hosts => exact lineTokens_hostsLine h
  | Adblock => exact lineTokens_adblockLine h

end

theorem parseDomains_of_lines {format : FeedFormat} {ds : List Text} {text : Text}
    (hds : ∀ d ∈ ds, sanitize d = some d) (hlines : Text.lines text = ds.map (renderDomain format)) :
    parseDomains format text = ds.toFinset := by
  have htokens : tokens format text = ds := by
    rw [tokens, hlines, List.flatMap_map]
    have hone : ∀ d ∈ ds, lineTokens format (renderDomain format d) = [d] :=
      fun d hd => lineTokens_render (sanitized (hds d hd)) format
    rw [List.flatMap_congr hone, List.flatMap_singleton']
  ext d
  rw [mem_parseDomains, htokens, List.mem_toFinset]
  constructor
  · rintro ⟨token, htoken, hd⟩
    rw [hds token htoken, Option.some.injEq] at hd
    exact hd ▸ htoken
  · exact fun hd => ⟨d, hd, hds d hd⟩

/-- Parsed domains are fixpoints of the sanitizer and of the index, and a feed of any format that
lists them, one on a line and in any order, is parsed into them again. -/
theorem parseDomains_rendered (format : FeedFormat) (text : Text) :
    (∀ d ∈ parseDomains format text,
      sanitize d = some d ∧ CategoryIndex.normalizeDomain d = d) ∧
    ∀ (target : FeedFormat) (ds : List Text), ds.toFinset = parseDomains format text →
      parseDomains target (ds.flatMap fun d => renderDomain target d ++ ['\n']) =
          parseDomains format text ∧
        parseDomains target (Text.join '\n' (ds.map (renderDomain target))) =
          parseDomains format text := by
  have hfix : ∀ d ∈ parseDomains format text, sanitize d = some d := by
    intro d hd
    obtain ⟨token, -, htoken⟩ := mem_parseDomains.mp hd
    exact sanitize_idem htoken
  refine ⟨fun d hd => ⟨hfix d hd, (sanitized (hfix d hd)).normalize⟩, ?_⟩
  intro target ds hds
  have hfix' : ∀ d ∈ ds, sanitize d = some d := by
    intro d hd
    apply hfix
    rw [← hds]
    exact List.mem_toFinset.mpr hd
  have hline : ∀ line ∈ ds.map (renderDomain target), Text.IsLine line := by
    intro line hline
    obtain ⟨d, hd, rfl⟩ := List.mem_map.mp hline
    exact renderDomain_isLine (sanitized (hfix' d hd)) target
  rw [← hds]
  constructor
  · apply parseDomains_of_lines hfix'
    rw [← Text.lines_terminated hline, List.flatMap_map]
  · exact parseDomains_of_lines hfix' (Text.lines_join hline)

/-- A hosts line with two domains becomes two lines of an adblock list. -/
theorem parseDomains_rendered_two :
    parseDomains .Adblock "||b.example^\n||a.example^\n".toList =
      parseDomains .Hosts "0.0.0.0 A.example *.b.example.\n".toList :=
  ((parseDomains_rendered .Hosts "0.0.0.0 A.example *.b.example.\n".toList).2 .Adblock
    ["b.example".toList, "a.example".toList] (by decide +kernel)).1

end Blocklist

end Brdns
