import Brdns.Spec.Model

/-! `lib/ruleengine.rs` and `lib/categories.rs`: rules in order, first match wins, and the
category index they consult. -/

namespace Brdns

open Lib

/-! ### The category index -/

abbrev CategoryIndex := CategoryMap

namespace CategoryIndex

def normalizeDomain (name : Text) : Text := Text.toAsciiLowercase (Text.trimEndMatches '.' name)

/-- The loop of `contains`: the name itself, then each of its ancestors. -/
def containsLabels (self : CategoryIndex) (category : Text) : List Text → Bool
  | [] => false
  | label :: labels =>
    if (self.lookup (Text.join '.' (label :: labels))).any (fun cats => category ∈ cats) then true
    else containsLabels self category labels

def contains (self : CategoryIndex) (qname category : Text) : Bool :=
  self.containsLabels category
    ((Text.split '.' (normalizeDomain qname)).filter fun l => !l.isEmpty)

end CategoryIndex

/-! ### The rule engine -/

inductive Decision where
  | Allow
  | Deny
  | Limit (ruleId limitCount : ℤ) (window : Window)
  deriving DecidableEq

namespace RuleEngine

def normalize (name : Text) : Text := Text.toAsciiLowercase (Text.trimEndMatches '.' name)

/-- Domain and wildcard targets; a category target never matches here. -/
def matchesTarget (qname : Text) (targetType : TargetType) (targetValue : Text) : Bool :=
  match targetType with
  | .Domain => normalize qname == normalize targetValue
  | .Wildcard =>
    let suffix := normalize (Text.trimStartMatchesStr ['*', '.'] targetValue)
    if suffix.isEmpty then false
    else
      let q := normalize qname
      q == suffix || Text.endsWith ('.' :: suffix) q
  | .Category => false

def ruleMatches (qname : Text) (inCategory : Text → Bool) (rule : Rule) : Bool :=
  match rule.targetType with
  | .Category => inCategory rule.targetValue
  | _ => matchesTarget qname rule.targetType rule.targetValue

/-- The decision of a rule that matched; a limit rule without bound or window gets defaults. -/
def decisionOf (rule : Rule) : Decision :=
  match rule.action with
  | .Allow => .Allow
  | .Deny => .Deny
  | .Limit => .Limit rule.id (rule.limitCount.getD 0) (rule.limitWindow.getD .Month)

def evaluate (qname : Text) (inCategory : Text → Bool) : List Rule → Option Decision
  | [] => none
  | rule :: rules =>
    if rule.enabled then
      if ruleMatches qname inCategory rule then some (decisionOf rule)
      else evaluate qname inCategory rules
    else evaluate qname inCategory rules

end RuleEngine

end Brdns
