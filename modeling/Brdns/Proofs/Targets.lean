import Brdns.Lib.Ascii
import Brdns.Spec.Rules

/-! What domain and wildcard targets match, by labels: the comparison of texts and of their ends
never cuts a label, nor the UTF-8 form of a character. -/

namespace Brdns

open Lib

namespace RuleEngine

/-- The source's `ends_with` compares octets. -/
theorem endsWith_octets (suffix s : Text) :
    Text.endsWith suffix s = true ↔ Text.bytes suffix <:+ Text.bytes s := by
  rw [Text.endsWith, List.isSuffixOf_iff_suffix, Text.bytes_suffix_iff]

/-- The comparison behind a wildcard: the suffix itself, or something below it. -/
theorem matchesTarget_wildcard (qname value : Text) :
    matchesTarget qname .Wildcard value = true ↔
      normalize (Text.trimStartMatchesStr ['*', '.'] value) ≠ [] ∧
        (normalize qname = normalize (Text.trimStartMatchesStr ['*', '.'] value) ∨
          '.' :: normalize (Text.trimStartMatchesStr ['*', '.'] value) <:+ normalize qname) := by
  simp only [matchesTarget]
  split_ifs with hempty
  · simp_all
  · simp_all [Text.endsWith]

example : matchesTarget "Ads.Example.com.".toList .Wildcard "*.*.EXAMPLE.com".toList = true := by
  decide +kernel

end RuleEngine

end Brdns
