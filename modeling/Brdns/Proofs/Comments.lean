import Brdns.Lib.Lines
import Brdns.Proofs.Listed

/-! Comments in feeds. A comment begins at a `#` that starts the line or follows white space. The
parser of plain lists never reads one; the parser of hosts lists skips a line that is all comment
and takes the words of any other comment for hosts. -/

namespace Brdns

open Lib

namespace Blocklist

/-! ### The comment of a line -/

/-- What stands before the comment, and the comment. -/
def splitComment (atStart : Bool) : Text → Text × Text
  | [] => ([], [])
  | c :: s =>
    if atStart && c == '#' then ([], c :: s)
    else
      let (before, after) := splitComment (Text.isWhitespace c) s
      (c :: before, after)

def stripComment (line : Text) : Text := (splitComment true line).1

def comment (line : Text) : Text := (splitComment true line).2

/-- The feed with the comment of every line erased. -/
def stripComments (text : Text) : Text :=
  Text.join '\n' ((Text.split '\n' text).map stripComment)

def hostWords (line : Text) : List Text := (Text.splitWhitespace (stripComment line)).tail

def commentWords (line : Text) : List Text :=
  if (Text.splitWhitespace (stripComment line)).isEmpty then []
  else Text.splitWhitespace (comment line)

theorem splitComment_append (atStart : Bool) (line : Text) :
    (splitComment atStart line).1 ++ (splitComment atStart line).2 = line := by
  induction line generalizing atStart with
  | nil => rfl
  | cons c s ih =>
    rw [splitComment]
    split_ifs
    · rfl
    · exact congrArg (c :: ·) (ih _)

theorem stripComment_append (line : Text) : stripComment line ++ comment line = line :=
  splitComment_append true line

/-- A comment stands at the start of its line or behind white space. -/
theorem splitComment_boundary (atStart : Bool) (line : Text) :
    (splitComment atStart line).2 = [] ∨
      (atStart = true ∧ (splitComment atStart line).1 = []) ∨
      ∃ before c, (splitComment atStart line).1 = before ++ [c] ∧
        Text.isWhitespace c = true := by
  induction line generalizing atStart with
  | nil => exact Or.inl rfl
  | cons c s ih =>
    rw [splitComment]
    split_ifs with h
    · rw [Bool.and_eq_true] at h
      exact Or.inr (Or.inl ⟨h.1, rfl⟩)
    · rcases ih (Text.isWhitespace c) with hnil | ⟨hc, hnil⟩ | ⟨before, w, hbefore, hw⟩
      · exact Or.inl hnil
      · exact Or.inr (Or.inr ⟨[], c, congrArg (c :: ·) hnil, hc⟩)
      · exact Or.inr (Or.inr ⟨c :: before, w, congrArg (c :: ·) hbefore, hw⟩)

theorem splitWhitespace_stripComment (line : Text) :
    Text.splitWhitespace line =
      Text.splitWhitespace (stripComment line) ++ Text.splitWhitespace (comment line) := by
  have hline := stripComment_append line
  rcases splitComment_boundary true line with hnil | ⟨-, hnil⟩ | ⟨before, c, hbefore, hc⟩
  · change comment line = [] at hnil
    rw [hnil, List.append_nil] at hline
    rw [hline, hnil]
    exact (List.append_nil _).symm
  · change stripComment line = [] at hnil
    rw [hnil, List.nil_append] at hline
    rw [hline, hnil]
    rfl
  · change stripComment line = before ++ [c] at hbefore
    rw [hbefore, Text.splitWhitespace_append hc before [], List.append_assoc]
    rw [hbefore, List.append_assoc, List.singleton_append] at hline
    conv_lhs => rw [← hline, Text.splitWhitespace_append hc]
    rfl

/-- The first character of a line is lost exactly if it begins the comment. -/
theorem find?_stripComment (line : Text) :
    (stripComment line).find? (fun c => !Text.isWhitespace c) =
      if line.find? (fun c => !Text.isWhitespace c) = some '#' then none
      else line.find? fun c => !Text.isWhitespace c := by
  induction line with
  | nil => rfl
  | cons c s ih =>
    by_cases hhash : c = '#'
    · subst hhash
      rfl
    · rw [stripComment, splitComment, if_neg (by simpa using hhash)]
      by_cases hc : Text.isWhitespace c = true
      · rw [hc, List.find?_cons_of_neg (by simp [hc]), List.find?_cons_of_neg (by simp [hc])]
        exact ih
      · rw [List.find?_cons_of_pos (by simp [hc]), List.find?_cons_of_pos (by simp [hc]),
          if_neg (by simpa using hhash)]

/-- The text before the first `#` is left as it is. -/
theorem takeWhile_splitComment (atStart : Bool) (line : Text) :
    (splitComment atStart line).1.takeWhile (· != '#') = line.takeWhile (· != '#') := by
  induction line generalizing atStart with
  | nil => rfl
  | cons c s ih =>
    rw [splitComment]
    by_cases hhash : c = '#'
    · subst hhash
      split_ifs <;> rfl
    · rw [if_neg (by simp [hhash]), List.takeWhile_cons_of_pos (by simpa using hhash),
        List.takeWhile_cons_of_pos (by simpa using hhash), ih]

/-! ### What the parsers read -/

theorem lineTokens_trim (format : FeedFormat) {line line' : Text}
    (h : Text.trim line = Text.trim line') : lineTokens format line = lineTokens format line' := by
  simp only [lineTokens, h]

theorem tokens_eq (format : FeedFormat) (text : Text) :
    tokens format text = (Text.split '\n' text).flatMap (lineTokens format) := by
  apply Text.flatMap_lines
  · exact fun line => lineTokens_trim format (Text.trim_stripCr line)
  · cases format <;> rfl

theorem tokens_stripComments (format : FeedFormat) (text : Text) :
    tokens format (stripComments text) =
      (Text.split '\n' text).flatMap fun line => lineTokens format (stripComment line) := by
  have hparts : Text.split '\n' (stripComments text) =
      (Text.split '\n' text).map stripComment := by
    apply Text.split_join
    · rw [ne_eq, List.map_eq_nil_iff]
      exact List.splitOn_ne_nil '\n' text
    · intro part hpart
      obtain ⟨line, hline, rfl⟩ := List.mem_map.mp hpart
      have hfeed := Text.not_mem_of_mem_split hline
      rw [← stripComment_append line, List.mem_append, not_or] at hfeed
      exact hfeed.1
  rw [tokens_eq, hparts, List.flatMap_map]

/-- The parser of hosts lists looks at the first character and at the words. -/
theorem lineTokens_hosts_eq (line : Text) :
    lineTokens .Hosts line =
      if line.find? (fun c => !Text.isWhitespace c) = some '#' then []
      else (Text.splitWhitespace line).tail := by
  simp only [lineTokens, Text.head?_trim, Text.splitWhitespace_trim]
  by_cases hnil : Text.trim line = []
  · have hfind := Text.head?_trim line
    rw [hnil] at hfind
    have hwords := Text.splitWhitespace_trim line
    rw [hnil] at hwords
    rw [← hfind, ← hwords, hnil]
    rfl
  · simp [hnil]

theorem find?_eq_none_iff {line : Text} :
    line.find? (fun c => !Text.isWhitespace c) = none ↔ Text.splitWhitespace line = [] := by
  rw [List.find?_eq_none, Text.splitWhitespace_eq_nil]
  simp

/-- A hosts line gives its hosts and the words of its comment. -/
theorem lineTokens_hosts (line : Text) :
    lineTokens .Hosts line = hostWords line ++ commentWords line := by
  have hfind := find?_stripComment line
  rw [lineTokens_hosts_eq]
  split_ifs at hfind ⊢ with hhash
  · have hwords := find?_eq_none_iff.mp hfind
    rw [hostWords, commentWords, hwords]
    rfl
  · rw [splitWhitespace_stripComment, hostWords, commentWords]
    rcases hwords : Text.splitWhitespace (stripComment line) with _ | ⟨address, hosts⟩
    · rw [find?_eq_none_iff.mpr hwords, eq_comm, find?_eq_none_iff,
        splitWhitespace_stripComment, hwords, List.nil_append] at hfind
      rw [hfind]
      rfl
    · rfl

theorem lineTokens_hosts_stripComment (line : Text) :
    lineTokens .Hosts (stripComment line) = hostWords line := by
  have hfind := find?_stripComment line
  rw [lineTokens_hosts_eq, if_neg]
  · rfl
  · rw [hfind]
    split_ifs with hhash
    · exact nofun
    · exact hhash

theorem sanitize_trim (token : Text) : sanitize (Text.trim token) = sanitize token := by
  simp only [sanitize, Text.trim_trim]

theorem trim_takeWhile_trim (line : Text) :
    Text.trim ((Text.trim line).takeWhile (· != '#')) =
      Text.trim (line.takeWhile (· != '#')) := by
  obtain ⟨p, q, hline, hp, hq⟩ := Text.trim_spec line
  have hhash : ∀ c, Text.isWhitespace c = true → (c != '#') = true := by
    intro c hc
    rw [bne_iff_ne]
    rintro rfl
    cases hc
  have hp' : ∀ c ∈ p, (c != '#') = true := fun c hc => hhash c (hp c hc)
  conv_rhs => rw [hline, List.append_assoc, List.takeWhile_append_of_pos hp',
    Text.trim_append_left hp, List.takeWhile_append]
  split_ifs with hlen
  · have hall := List.takeWhile_eq_self_iff.mp
      ((List.takeWhile_prefix (· != '#')).eq_of_length hlen)
    rw [List.takeWhile_eq_self_iff.mpr hall,
      List.takeWhile_eq_self_iff.mpr fun c hc => hhash c (hq c hc), Text.trim_append_right _ hq]
  · rfl

/-- A plain line gives what stands before its first `#`. -/
theorem exists_lineTokens_plain {line d : Text} :
    (∃ token ∈ lineTokens .Plain line, sanitize token = some d) ↔
      sanitize (line.takeWhile (· != '#')) = some d := by
  have htoken : sanitize (line.takeWhile (· != '#')) =
      sanitize ((Text.trim line).takeWhile (· != '#')) := by
    rw [← sanitize_trim, ← trim_takeWhile_trim, sanitize_trim]
  have hnil : sanitize [] = none := by decide +kernel
  rw [htoken]
  simp only [lineTokens, Text.head?_split]
  rcases Text.trim line with _ | ⟨c, t⟩
  · simp [hnil]
  · by_cases hc : c = '#'
    · simp [hc, hnil]
    · simp [hc, sanitize_trim]

/-! ### The law -/

theorem parseDomains_plain_stripComments (text : Text) :
    parseDomains .Plain (stripComments text) = parseDomains .Plain text := by
  ext d
  rw [mem_parseDomains, mem_parseDomains, tokens_stripComments, tokens_eq, exists_mem_flatMap,
    exists_mem_flatMap]
  refine exists_congr fun line => and_congr_right fun _ => ?_
  rw [exists_lineTokens_plain, exists_lineTokens_plain, stripComment, takeWhile_splitComment]

theorem mem_parseDomains_hosts_stripComments {text d : Text} :
    d ∈ parseDomains .Hosts (stripComments text) ↔
      ∃ host ∈ (Text.split '\n' text).flatMap hostWords, sanitize host = some d := by
  have htokens : tokens .Hosts (stripComments text) =
      (Text.split '\n' text).flatMap hostWords := by
    rw [tokens_stripComments]
    exact List.flatMap_congr fun line _ => lineTokens_hosts_stripComment line
  rw [mem_parseDomains, htokens]

theorem mem_parseDomains_hosts {text d : Text} :
    d ∈ parseDomains .Hosts text ↔ d ∈ parseDomains .Hosts (stripComments text) ∨
      ∃ word ∈ (Text.split '\n' text).flatMap commentWords, sanitize word = some d := by
  rw [mem_parseDomains_hosts_stripComments, mem_parseDomains, tokens_eq, exists_mem_flatMap,
    exists_mem_flatMap, exists_mem_flatMap]
  simp only [lineTokens_hosts, List.mem_append, or_and_right, exists_or, and_or_left]

/-- Erasing the comments of a plain list changes nothing. Erasing those of a hosts list changes
nothing exactly if every domain in a comment behind an address is also a host of some line. -/
theorem parseDomains_stripComments_iff (text : Text) :
    parseDomains .Plain (stripComments text) = parseDomains .Plain text ∧
      (parseDomains .Hosts (stripComments text) = parseDomains .Hosts text ↔
        ∀ word ∈ (Text.split '\n' text).flatMap commentWords, ∀ d, sanitize word = some d →
          ∃ host ∈ (Text.split '\n' text).flatMap hostWords, sanitize host = some d) := by
  refine ⟨parseDomains_plain_stripComments text, ?_⟩
  constructor
  · intro heq word hword d hd
    rw [← mem_parseDomains_hosts_stripComments, heq, mem_parseDomains_hosts]
    exact Or.inr ⟨word, hword, hd⟩
  · intro h
    ext d
    have hmem : d ∈ parseDomains .Hosts text ↔ _ := mem_parseDomains_hosts
    rw [hmem, iff_self_or]
    rintro ⟨word, hword, hd⟩
    exact mem_parseDomains_hosts_stripComments.mpr (h word hword d hd)

/-- The remark behind a host is read as hosts. -/
theorem parseDomains_hosts_comment :
    ¬ ∀ format text, format = .Plain ∨ format = .Hosts →
      parseDomains format (stripComments text) = parseDomains format text := by
  intro h
  have hsame := h .Hosts "0.0.0.0 ads.example.com # see tracker.example.org\n".toList (Or.inr rfl)
  revert hsame
  decide +kernel

end Blocklist

end Brdns
