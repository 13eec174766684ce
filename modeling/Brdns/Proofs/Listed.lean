import Brdns.Lib.Ascii
import Brdns.Proofs.Blocklist

/-! From a feed to blocked names. The index is searched by the labels of a name that are not
empty, while the feed parser keeps a domain as it was written, empty labels included. -/

namespace Brdns

open Lib CategoryMap CategoryIndex

namespace Blocklist

def indexOf (categories : Finset Text) (domains : Finset Text) : CategoryIndex :=
  domains.val.foldl (mergeDomain categories) ∅

theorem mem_tags_indexOf {categories domains : Finset Text} {d c : Text} :
    c ∈ tags (indexOf categories domains) d ↔ d ∈ domains ∧ c ∈ categories := by
  have h := Fold.multiset_foldl_adds (gives_mergeDomain categories) domains.val ∅ (d, c)
  have hempty : ¬ Gives ∅ (d, c) := by simp [Gives]
  unfold indexOf
  change Gives _ (d, c) ↔ _
  rw [h, or_iff_right hempty]
  simp

/-! ### What a parsed domain looks like -/

def labels (d : Text) : List Text := (Text.split '.' d).filter fun l => !l.isEmpty

def NoEmptyLabel (d : Text) : Prop := ∀ l ∈ Text.split '.' d, l ≠ []

instance (d : Text) : Decidable (NoEmptyLabel d) := List.decidableBAll _ _

theorem labels_of_noEmptyLabel {d : Text} (h : NoEmptyLabel d) : labels d = Text.split '.' d :=
  List.filter_eq_self.mpr fun l hl => by simpa using h l hl

theorem labels_append (l d : Text) : labels (l ++ '.' :: d) = labels l ++ labels d := by
  unfold labels
  rw [Text.split_append, List.filter_append]

structure Sanitized (d : Text) : Prop where
  ne_nil : d ≠ []
  chars : ∀ c ∈ d, isDomainChar c = true
  last : ∀ h : d ≠ [], d.getLast h ≠ '.'

theorem sanitized {token d : Text} (h : sanitize token = some d) : Sanitized d := by
  unfold sanitize at h
  dsimp only at h
  generalize htrim : Text.trimEndMatches '.' (Text.trimStartMatchesStr ['*', '.']
    (Text.toAsciiLowercase (Text.trim token))) = domain at h
  split_ifs at h with hlen hchars hdot
  cases h
  simp only [Bool.or_eq_true, List.isEmpty_iff, not_or] at hlen
  refine ⟨hlen.1, by simpa using hchars, fun hne => ?_⟩
  subst htrim
  have hlast := List.rdropWhile_last_not (· == '.') _ hne
  exact fun heq => hlast (beq_iff_eq.mpr heq)

/-! ### The tokens of a feed -/

/-- What a line offers as domains, once its comments and options are cut off. -/
def lineTokens (format : FeedFormat) (line : Text) : List Text :=
  let line := Text.trim line
  match format with
  | .Plain =>
    if line.isEmpty || line.head? == some '#' then []
    else [Text.trim ((Text.split '#' line).head?.getD [])]
  | .Hosts =>
    if line.isEmpty || line.head? == some '#' then [] else (Text.splitWhitespace line).tail
  | .Adblock =>
    if line.isEmpty || line.head? == some '!' || line.head? == some '[' then []
    else if (Text.stripPrefix ['@', '@'] line).isSome then []
    else
      (Text.stripPrefix ['|', '|'] line).toList.map
        (List.takeWhile fun c => c != '^' && c != '$' && c != '/')

def tokens (format : FeedFormat) (text : Text) : List Text :=
  (Text.lines text).flatMap (lineTokens format)

theorem mem_insertSanitized {token d : Text} {out : Finset Text} :
    d ∈ insertSanitized token out ↔ d ∈ out ∨ sanitize token = some d := by
  unfold insertSanitized
  cases sanitize token with
  | none => simp
  | some domain =>
    rw [Finset.mem_insert, or_comm, Option.some_inj]
    exact or_congr_right eq_comm

theorem mem_parseLine {format : FeedFormat} {line d : Text} {out : Finset Text} :
    d ∈ parseLine format line out ↔
      d ∈ out ∨ ∃ token ∈ lineTokens format line, sanitize token = some d := by
  cases format with
  | Plain =>
    simp only [parseLine, parsePlainLine, lineTokens]
    split_ifs
    · simp
    · simp [mem_insertSanitized]
  | Hosts =>
    simp only [parseLine, parseHostsLine, lineTokens]
    split_ifs
    · simp
    · have hstep : ∀ out host d, d ∈ insertSanitized host out ↔
          d ∈ out ∨ sanitize host = some d := fun _ _ _ => mem_insertSanitized
      exact @Fold.foldl_adds _ _ _ (fun out d => d ∈ out) _ _ hstep _ out d
  | Adblock =>
    simp only [parseLine, parseAdblockLine, lineTokens]
    split_ifs
    · simp
    · simp
    · cases Text.stripPrefix ['|', '|'] (Text.trim line) with
      | none => simp
      | some rest => simp [mem_insertSanitized]

theorem exists_mem_flatMap {lines : List Text} {f : Text → List Text} {d : Text} :
    (∃ token ∈ lines.flatMap f, sanitize token = some d) ↔
      ∃ line ∈ lines, ∃ token ∈ f line, sanitize token = some d := by
  constructor
  · rintro ⟨token, htoken, hd⟩
    obtain ⟨line, hline, htoken⟩ := List.mem_flatMap.mp htoken
    exact ⟨line, hline, token, htoken, hd⟩
  · rintro ⟨line, hline, token, htoken, hd⟩
    exact ⟨token, List.mem_flatMap.mpr ⟨line, hline, htoken⟩, hd⟩

/-- A parser returns what `sanitize` makes of the tokens. -/
theorem mem_parseDomains {format : FeedFormat} {text d : Text} :
    d ∈ parseDomains format text ↔ ∃ token ∈ tokens format text, sanitize token = some d := by
  have hstep : ∀ out line d, d ∈ parseLine format line out ↔
      d ∈ out ∨ ∃ token ∈ lineTokens format line, sanitize token = some d :=
    fun _ _ _ => mem_parseLine
  have hfold := @Fold.foldl_adds _ _ _ (fun out d => d ∈ out) _ _ hstep (Text.lines text) ∅ d
  unfold parseDomains tokens
  rw [hfold, exists_mem_flatMap]
  simp only [Finset.notMem_empty, false_or]

theorem sanitized_of_parseDomains {format : FeedFormat} {text d : Text}
    (hd : d ∈ parseDomains format text) : Sanitized d := by
  obtain ⟨token, -, hd⟩ := mem_parseDomains.mp hd
  exact sanitized hd

/-! ### Lookups of a parsed domain and of names below it -/

/-- Lowercase letters; digits, hyphens and dots; the underscore. -/
theorem isDomainChar_toNat {c : Char} (h : isDomainChar c = true) :
    (97 ≤ c.toNat ∧ c.toNat ≤ 122) ∨ (45 ≤ c.toNat ∧ c.toNat ≤ 57) ∨ c.toNat = 95 := by
  simp only [isDomainChar, Bool.or_eq_true, beq_iff_eq] at h
  rcases h with (((h | h) | rfl) | rfl) | rfl
  · simp only [Char.isLower, Bool.and_eq_true, decide_eq_true_eq] at h
    have h : 97 ≤ c.toNat ∧ c.toNat ≤ 122 := h
    omega
  · simp only [Char.isDigit, Bool.and_eq_true, decide_eq_true_eq] at h
    have h : 48 ≤ c.toNat ∧ c.toNat ≤ 57 := h
    omega
  all_goals decide

theorem not_upper_of_isDomainChar {c : Char} (h : isDomainChar c = true) : c.isUpper = false := by
  have hnat := isDomainChar_toNat h
  rw [Char.isUpper, decide_eq_false_iff_not]
  rintro ⟨ha, hz⟩
  have ha : 65 ≤ c.toNat := ha
  have hz : c.toNat ≤ 90 := hz
  omega

section

variable {d : Text} (h : Sanitized d)

include h

theorem Sanitized.lower : Text.toAsciiLowercase d = d :=
  Text.toAsciiLowercase_of_not_upper fun c hc => not_upper_of_isDomainChar (h.chars c hc)

theorem Sanitized.normalize_below (l : Text) :
    normalizeDomain (l ++ '.' :: d) = Text.toAsciiLowercase l ++ '.' :: d := by
  have htrim : Text.trimEndMatches '.' (l ++ '.' :: d) = l ++ '.' :: d := by
    refine List.rdropWhile_eq_self_iff.mpr fun hne => ?_
    rw [List.getLast_append_of_ne_nil _ (List.cons_ne_nil _ _), List.getLast_cons h.ne_nil]
    simpa using h.last h.ne_nil
  rw [normalizeDomain, htrim, Text.toAsciiLowercase, List.map_append, List.map_cons]
  congr 2
  exact h.lower

theorem Sanitized.normalize : normalizeDomain d = d := by
  have htrim : Text.trimEndMatches '.' d = d :=
    List.rdropWhile_eq_self_iff.mpr fun hne => by simpa using h.last hne
  rw [normalizeDomain, htrim, h.lower]

end

/-- A token of the feed is cleaned to a name without empty labels that is the domain or an ancestor
of it, once the empty labels of the domain are dropped. -/
def Listed (format : FeedFormat) (text d : Text) : Prop :=
  ∃ token ∈ tokens format text, ∃ e ∈ sanitize token,
    NoEmptyLabel e ∧ Text.split '.' e <:+ labels d

section

variable {format : FeedFormat} {text d c : Text} {categories : Finset Text}

theorem listed_of_noEmptyLabel (hd : d ∈ parseDomains format text) (h : NoEmptyLabel d) :
    Listed format text d := by
  obtain ⟨token, htoken, hd⟩ := mem_parseDomains.mp hd
  exact ⟨token, htoken, d, hd, h, labels_of_noEmptyLabel h ▸ List.suffix_rfl⟩

theorem containsLabels_of_listed (hc : c ∈ categories) (h : Listed format text d)
    {ls : List Text} (hls : labels d <:+ ls) :
    containsLabels (indexOf categories (parseDomains format text)) c ls = true := by
  obtain ⟨token, htoken, e, he, -, hsuffix⟩ := h
  refine containsLabels_iff.mpr ⟨Text.split '.' e, List.splitOn_ne_nil '.' e, hsuffix.trans hls, ?_⟩
  rw [Text.join_split]
  exact mem_tags_indexOf.mpr ⟨mem_parseDomains.mpr ⟨token, htoken, he⟩, hc⟩

theorem listed_of_containsLabels
    (h : containsLabels (indexOf categories (parseDomains format text)) c (labels d) = true) :
    Listed format text d := by
  obtain ⟨t, hne, hsuffix, htags⟩ := containsLabels_iff.mp h
  obtain ⟨token, htoken, he⟩ := mem_parseDomains.mp (mem_tags_indexOf.mp htags).1
  have hpart : ∀ l ∈ t, l ≠ [] ∧ '.' ∉ l := fun l hl => by
    obtain ⟨hl, hempty⟩ := List.mem_filter.mp (hsuffix.subset hl)
    exact ⟨by simpa using hempty, Text.not_mem_of_mem_split hl⟩
  have hsplit : Text.split '.' (Text.join '.' t) = t :=
    Text.split_join hne fun l hl => (hpart l hl).2
  refine ⟨token, htoken, _, he, fun l hl => ?_, ?_⟩
  · rw [hsplit] at hl
    exact (hpart l hl).1
  · rwa [hsplit]

end

/-- A domain parsed from a feed is blocked, with all names below it, exactly when a token of the
feed lists the domain or an ancestor of it without an empty label. -/
theorem listed_blocked_iff {format : FeedFormat} {text d : Text}
    (hd : d ∈ parseDomains format text) {categories : Finset Text} (hne : categories.Nonempty) :
    (∀ c ∈ categories,
      contains (indexOf categories (parseDomains format text)) d c = true ∧
        ∀ l, l ≠ [] →
          contains (indexOf categories (parseDomains format text)) (l ++ '.' :: d) c = true) ↔
      Listed format text d := by
  have hclean := sanitized_of_parseDomains hd
  constructor
  · intro h
    obtain ⟨c, hc⟩ := hne
    have hself := (h c hc).1
    unfold contains at hself
    rw [hclean.normalize] at hself
    exact listed_of_containsLabels hself
  · intro h c hc
    refine ⟨?_, fun l _ => ?_⟩
    · unfold contains
      rw [hclean.normalize]
      exact containsLabels_of_listed hc h List.suffix_rfl
    · unfold contains
      rw [hclean.normalize_below]
      refine containsLabels_of_listed hc h ?_
      change labels d <:+ labels (Text.toAsciiLowercase l ++ '.' :: d)
      rw [labels_append]
      exact List.suffix_append _ _

theorem listed_blocked_iff_two_hosts :
    "tracker.io".toList ∈ parseDomains .Hosts "0.0.0.0 tracker.io .junk.io\n".toList ∧
      contains (indexOf {"ads".toList}
          (parseDomains .Hosts "0.0.0.0 tracker.io .junk.io\n".toList))
        "www.tracker.io".toList "ads".toList = true := by
  have hmem : "tracker.io".toList ∈ parseDomains .Hosts "0.0.0.0 tracker.io .junk.io\n".toList := by
    decide +kernel
  have hblocked := (listed_blocked_iff hmem (Finset.singleton_nonempty "ads".toList)).mpr
    (listed_of_noEmptyLabel hmem (by decide +kernel))
  exact ⟨hmem, (hblocked _ (Finset.mem_singleton_self _)).2 "www".toList (by decide)⟩

/-- An entry with a leading dot is kept with it and then never found. -/
theorem dotted_entry_not_blocked :
    ".ads.example".toList ∈ parseDomains .Plain ".ads.example\n".toList ∧
      ∀ name ∈ [".ads.example".toList, "www..ads.example".toList, "ads.example".toList],
        contains (indexOf {"ads".toList} (parseDomains .Plain ".ads.example\n".toList)) name
          "ads".toList = false := by
  decide +kernel

end Blocklist

end Brdns
