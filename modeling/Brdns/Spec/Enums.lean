import Brdns.Spec.Model

/-! `lib/model/enums.rs`: the literals of the enumerations. -/

namespace Brdns

open Lib

/-- `as_str` of a `str_enum` with the given literals. -/
def literalOf {α : Type} [DecidableEq α] (variants : List (String × α)) (self : α) : Text :=
  ((variants.find? fun v => v.2 = self).map fun v => v.1.toList).getD []

/-- `from_str` of a `str_enum` with the given literals. -/
def parseEnum {α : Type} (name : String) (variants : List (String × α)) (s : Text) :
    CplResult α :=
  match variants.find? fun v => v.1.toList = s with
  | some v => .ok v.2
  | none =>
    let debug := String.quote (String.ofList s)
    let literals := ", ".intercalate (variants.map Prod.fst)
    .error (.error s!"unknown {name}: {debug} (expected one of {literals})")

def Action.variants : List (String × Action) :=
  [("allow", .Allow), ("deny", .Deny), ("limit", .Limit)]

def Action.asStr : Action → Text := literalOf variants

def Action.fromStr : Text → CplResult Action := parseEnum "Action" variants

def TargetType.variants : List (String × TargetType) :=
  [("domain", .Domain), ("wildcard", .Wildcard), ("category", .Category)]

def TargetType.asStr : TargetType → Text := literalOf variants

def TargetType.fromStr : Text → CplResult TargetType := parseEnum "TargetType" variants

def Window.variants : List (String × Window) :=
  [("hour", .Hour), ("day", .Day), ("week", .Week), ("month", .Month)]

def Window.asStr : Window → Text := literalOf variants

def Window.fromStr : Text → CplResult Window := parseEnum "Window" variants

def UpstreamProtocol.variants : List (String × UpstreamProtocol) :=
  [("dot", .Dot), ("doh", .Doh), ("udp", .Udp)]

def UpstreamProtocol.asStr : UpstreamProtocol → Text := literalOf variants

def UpstreamProtocol.fromStr : Text → CplResult UpstreamProtocol :=
  parseEnum "UpstreamProtocol" variants

end Brdns
