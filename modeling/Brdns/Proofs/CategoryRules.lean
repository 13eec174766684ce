import Brdns.Proofs.Decision
import Brdns.Proofs.Listed
import Brdns.Proofs.Targets

/-! Category rules against wildcard rules: the walk over the ancestors of a name finds what the
comparison with every `*.domain` of the category finds. -/

namespace Brdns

open Lib CategoryMap Blocklist

structure PlainName (d : Text) : Prop where
  lowercase : Text.toAsciiLowercase d = d
  no_star : '*' ∉ d
  labels : NoEmptyLabel d

namespace PlainName

variable {d : Text}

theorem ne_nil (h : PlainName d) : d ≠ [] := by
  rintro rfl
  exact h.labels [] (List.mem_singleton_self []) rfl

theorem trimEnd_dot (h : NoEmptyLabel d) : Text.trimEndMatches '.' d = d := by
  rw [Text.trimEndMatches, List.rdropWhile_eq_self_iff]
  intro hne hdot
  have hlast : d = d.dropLast ++ '.' :: [] := by
    rw [← beq_iff_eq.mp hdot, List.dropLast_append_getLast]
  rw [NoEmptyLabel, hlast, Text.split_append] at h
  exact h [] (List.mem_append_right _ (List.mem_singleton_self [])) rfl

theorem normalize_eq (h : PlainName d) : RuleEngine.normalize d = d := by
  rw [RuleEngine.normalize, trimEnd_dot h.labels, h.lowercase]

/-- The target `*.d` compares with `d`. -/
theorem bare (h : PlainName d) : Text.trimStartMatchesStr ['*', '.'] ('*' :: '.' :: d) = d := by
  have hstar : ¬ ['*', '.'] <+: d := fun hp => h.no_star (hp.subset List.mem_cons_self)
  have hdrop := Text.trimStartMatchesStr_append (List.cons_ne_nil '*' ['.']) d
  rw [Text.trimStartMatchesStr_eq_self hstar] at hdrop
  exact hdrop

end PlainName

/-- No empty label is left once the trailing dots are gone; the empty name has no label at all. -/
def ProperName (q : Text) : Prop :=
  Text.trimEndMatches '.' q ≠ [] → NoEmptyLabel (Text.trimEndMatches '.' q)

namespace CategoryIndex

theorem normalizeDomain_labels {q : Text} (hq : ProperName q) (hne : normalizeDomain q ≠ []) :
    NoEmptyLabel (normalizeDomain q) := by
  intro label hlabel
  rw [normalizeDomain, Text.split_toAsciiLowercase (by decide)] at hlabel
  obtain ⟨part, hpart, rfl⟩ := List.mem_map.mp hlabel
  have hpart' : part ≠ [] := by
    refine hq ?_ part hpart
    intro h
    rw [normalizeDomain, h] at hne
    exact hne rfl
  simpa [Text.toAsciiLowercase] using hpart'

/-- The labels that the walk starts from are those of the name. -/
theorem suffix_labels_iff {q d : Text} (hq : ProperName q) (hd : PlainName d) :
    Text.split '.' d <:+ labels (normalizeDomain q) ↔
      Text.split '.' d <:+ Text.split '.' (normalizeDomain q) := by
  rcases eq_or_ne (normalizeDomain q) [] with hnil | hne
  · rw [hnil]
    have hsplit : Text.split '.' ([] : Text) = [[]] := rfl
    have hlabels : labels [] = [] := rfl
    rw [hsplit, hlabels, List.suffix_nil]
    constructor
    · exact fun h => absurd h (List.splitOn_ne_nil '.' d)
    · intro h
      obtain ⟨label, labels, hcons⟩ := List.exists_cons_of_ne_nil (List.splitOn_ne_nil '.' d)
      have hlabel : label ∈ Text.split '.' d := by
        rw [Text.split, hcons]
        exact List.mem_cons_self
      exact absurd (List.mem_singleton.mp (h.subset hlabel)) (hd.labels label hlabel)
  · rw [labels_of_noEmptyLabel (normalizeDomain_labels hq hne)]

/-- One domain of the category is enough, and it must be the name or an ancestor. -/
theorem contains_iff {m : CategoryIndex} (hm : ∀ d ∈ m, PlainName d) (category : Text) {q : Text}
    (hq : ProperName q) : m.contains q category = true ↔
      ∃ d, category ∈ tags m d ∧ Text.split '.' d <:+ Text.split '.' (normalizeDomain q) := by
  rw [contains, containsLabels_iff]
  constructor
  · rintro ⟨t, hne, ht, hcat⟩
    have hdots : ∀ label ∈ t, '.' ∉ label := fun label hlabel =>
      Text.not_mem_of_mem_split (List.mem_filter.mp (ht.subset hlabel)).1
    refine ⟨Text.join '.' t, hcat, ?_⟩
    rw [← suffix_labels_iff hq (hm _ (mem_of_tag hcat)), Text.split_join hne hdots]
    exact ht
  · rintro ⟨d, hcat, hd⟩
    refine ⟨Text.split '.' d, List.splitOn_ne_nil '.' d, ?_, ?_⟩
    · exact (suffix_labels_iff hq (hm d (mem_of_tag hcat))).mpr hd
    · rwa [Text.join_split]

end CategoryIndex

namespace RuleEngine

theorem matchesTarget_star {q d : Text} (hd : PlainName d) :
    matchesTarget q .Wildcard ('*' :: '.' :: d) = true ↔
      Text.split '.' d <:+ Text.split '.' (normalize q) := by
  rw [matchesTarget_wildcard, hd.bare, hd.normalize_eq, Text.split_suffix_iff,
    and_iff_right hd.ne_nil]

/-- The rule with the target `*.d` in the place of its own. -/
def wildcardRule (rule : Rule) (d : Text) : Rule :=
  { rule with targetType := .Wildcard, targetValue := '*' :: '.' :: d }

theorem evaluate_append (q : Text) (inCategory : Text → Bool) (rules rules' : List Rule) :
    evaluate q inCategory (rules ++ rules') =
      (evaluate q inCategory rules).or (evaluate q inCategory rules') := by
  rw [evaluate_eq, evaluate_eq, evaluate_eq, firstMatch, List.find?_append, Option.map_or]
  rfl

/-- The wildcard rules decide what their original decides, as soon as one of them matches. -/
theorem evaluate_wildcardRules (q : Text) (inCategory : Text → Bool) (rule : Rule)
    (ds : List Text) : evaluate q inCategory (ds.map (wildcardRule rule)) =
      if rule.enabled = true ∧ ∃ d ∈ ds, matchesTarget q .Wildcard ('*' :: '.' :: d) = true
      then some (decisionOf rule) else none := by
  induction ds with
  | nil => simp [evaluate]
  | cons d ds ih =>
    rw [List.map_cons, evaluate, ih]
    have henabled : (wildcardRule rule d).enabled = rule.enabled := rfl
    have hdecision : decisionOf (wildcardRule rule d) = decisionOf rule := rfl
    have hmatch : ruleMatches q inCategory (wildcardRule rule d) =
        matchesTarget q .Wildcard ('*' :: '.' :: d) := rfl
    rw [henabled, hdecision, hmatch]
    simp only [List.mem_cons, exists_eq_or_imp]
    cases rule.enabled <;> cases matchesTarget q .Wildcard ('*' :: '.' :: d) <;> simp

/-- A category rule can be replaced by its wildcard rules anywhere in a list. -/
theorem evaluate_category {m : CategoryIndex} {q : Text} {rule : Rule} {ds : List Text}
    (hcategory : rule.targetType = .Category)
    (hds : m.contains q rule.targetValue = true ↔
      ∃ d ∈ ds, matchesTarget q .Wildcard ('*' :: '.' :: d) = true) (before after : List Rule) :
    evaluate q (m.contains q) (before ++ rule :: after) =
      evaluate q (m.contains q) (before ++ ds.map (wildcardRule rule) ++ after) := by
  have hone : evaluate q (m.contains q) [rule] =
      evaluate q (m.contains q) (ds.map (wildcardRule rule)) := by
    have hmatch : ruleMatches q (m.contains q) rule = m.contains q rule.targetValue := by
      rw [ruleMatches, hcategory]
    simp only [evaluate_wildcardRules, ← hds, evaluate, hmatch]
    cases rule.enabled <;> cases m.contains q rule.targetValue <;> simp
  have hsplit : before ++ rule :: after = before ++ [rule] ++ after := by simp
  rw [hsplit, evaluate_append, evaluate_append, evaluate_append, evaluate_append, hone]

end RuleEngine

/-- The index agrees with the wildcards over its domains, and so does every list of rules in
which they stand for a category. -/
theorem contains_iff_wildcard {m : CategoryIndex} (hm : ∀ d ∈ m, PlainName d) (category : Text)
    {q : Text} (hq : ProperName q) :
    (m.contains q category = true ↔ ∃ d cats, m.lookup d = some cats ∧ category ∈ cats ∧
      RuleEngine.matchesTarget q .Wildcard ('*' :: '.' :: d) = true) ∧
    ∀ (rule : Rule) (ds : List Text), rule.targetType = .Category → rule.targetValue = category →
      (∀ d, d ∈ ds ↔ ∃ cats, m.lookup d = some cats ∧ category ∈ cats) →
      ∀ before after : List Rule,
        RuleEngine.evaluate q (m.contains q) (before ++ rule :: after) =
          RuleEngine.evaluate q (m.contains q)
            (before ++ ds.map (RuleEngine.wildcardRule rule) ++ after) := by
  have htag (d : Text) : category ∈ tags m d ↔ ∃ cats, m.lookup d = some cats ∧ category ∈ cats := by
    rw [tags]
    cases m.lookup d <;> simp
  have hwild : m.contains q category = true ↔ ∃ d, category ∈ tags m d ∧
      RuleEngine.matchesTarget q .Wildcard ('*' :: '.' :: d) = true := by
    rw [CategoryIndex.contains_iff hm category hq]
    refine exists_congr fun d => and_congr_right fun hcat => ?_
    exact (RuleEngine.matchesTarget_star (hm d (mem_of_tag hcat))).symm
  constructor
  · rw [hwild]
    refine exists_congr fun d => ?_
    rw [htag]
    constructor
    · rintro ⟨⟨cats, hcats, hcat⟩, hmatch⟩
      exact ⟨cats, hcats, hcat, hmatch⟩
    · rintro ⟨cats, hcats, hcat, hmatch⟩
      exact ⟨⟨cats, hcats, hcat⟩, hmatch⟩
  · rintro rule ds htype rfl hds before after
    refine RuleEngine.evaluate_category htype ?_ before after
    rw [hwild]
    refine exists_congr fun d => ?_
    rw [htag, hds]

def videoIndex : CategoryIndex := Finmap.singleton "youtube.com".toList {"video".toList}

theorem videoIndex_plain : ∀ d ∈ videoIndex, PlainName d := by
  intro d hd
  obtain rfl := (Finmap.mem_singleton _ _ _).mp hd
  exact ⟨by decide +kernel, by decide +kernel, by decide +kernel⟩

theorem videoIndex_domains (d : Text) : d ∈ ["youtube.com".toList] ↔
    ∃ cats, videoIndex.lookup d = some cats ∧ "video".toList ∈ cats := by
  rw [List.mem_singleton]
  constructor
  · rintro rfl
    exact ⟨_, Finmap.lookup_singleton_eq, Finset.mem_singleton_self _⟩
  · rintro ⟨cats, hcats, -⟩
    exact (Finmap.mem_singleton _ _ _).mp (Finmap.mem_of_lookup_eq_some hcats)

/-- A capitalized name below a listed domain, and the rule that denies it. -/
theorem contains_iff_wildcard_youtube :
    videoIndex.contains "WWW.YouTube.com.".toList "video".toList = true ∧
    RuleEngine.evaluate "WWW.YouTube.com.".toList (videoIndex.contains "WWW.YouTube.com.".toList)
        [⟨1, 1, 0, .Deny, .Category, "video".toList, none, none, true⟩] =
      RuleEngine.evaluate "WWW.YouTube.com.".toList
        (videoIndex.contains "WWW.YouTube.com.".toList)
        [⟨1, 1, 0, .Deny, .Wildcard, "*.youtube.com".toList, none, none, true⟩] := by
  have h := contains_iff_wildcard videoIndex_plain "video".toList (q := "WWW.YouTube.com.".toList)
    (fun _ => by decide +kernel)
  exact ⟨h.1.mpr ⟨_, _, Finmap.lookup_singleton_eq, Finset.mem_singleton_self _,
    by decide +kernel⟩, h.2 _ _ rfl rfl videoIndex_domains [] []⟩

end Brdns
