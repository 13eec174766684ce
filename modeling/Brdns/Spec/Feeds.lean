import Brdns.Spec.Model

/-! The parsers of `lib/blocklist.rs`: from the text of a community feed to its domains. -/

namespace Brdns

open Lib

inductive FeedFormat where
  | Plain
  | Hosts
  | Adblock
  deriving DecidableEq

structure Feed where
  name : Text
  url : Text
  format : FeedFormat
  categories : List Text
  deriving DecidableEq

namespace Blocklist

/-- Letters, digits, hyphen, underscore, dot; letters are lowercase by then. -/
def isDomainChar (c : Char) : Bool :=
  c.isLower || c.isDigit || c == '.' || c == '-' || c == '_'

/-- Normalize a domain token, or refuse it. -/
def sanitize (token : Text) : Option Text :=
  let domain := Text.toAsciiLowercase (Text.trim token)
  let domain := Text.trimStartMatchesStr ['*', '.'] domain
  let domain := Text.trimEndMatches '.' domain
  if domain.isEmpty || Text.len domain > 253 then none
  else if !domain.all isDomainChar then none
  -- a dot drops "localhost", a letter drops bare addresses
  else if !domain.contains '.' || !domain.any Char.isAlpha then none
  else some domain

def insertSanitized (token : Text) (out : Finset Text) : Finset Text :=
  match sanitize token with
  | some domain => insert domain out
  | none => out

def parsePlainLine (line : Text) (out : Finset Text) : Finset Text :=
  let line := Text.trim line
  if line.isEmpty || line.head? == some '#' then out
  else insertSanitized (Text.trim ((Text.split '#' line).head?.getD [])) out

def parseHostsLine (line : Text) (out : Finset Text) : Finset Text :=
  let line := Text.trim line
  if line.isEmpty || line.head? == some '#' then out
  else
    -- the first token is the address
    (Text.splitWhitespace line).tail.foldl (fun out host => insertSanitized host out) out

def parseAdblockLine (line : Text) (out : Finset Text) : Finset Text :=
  let line := Text.trim line
  if line.isEmpty || line.head? == some '!' || line.head? == some '[' then out
  else if (Text.stripPrefix ['@', '@'] line).isSome then out
  else
    match Text.stripPrefix ['|', '|'] line with
    | some rest => insertSanitized (rest.takeWhile fun c => c != '^' && c != '$' && c != '/') out
    | none => out

def parseLine : FeedFormat → Text → Finset Text → Finset Text
  | .Plain => parsePlainLine
  | .Hosts => parseHostsLine
  | .Adblock => parseAdblockLine

def parseDomains (format : FeedFormat) (text : Text) : Finset Text :=
  (Text.lines text).foldl (fun out line => parseLine format line out) ∅

example : parseDomains .Plain
    "# comment\n*.ads.example.com\nbadsite.com # inline\n".toList =
      {"ads.example.com".toList, "badsite.com".toList} := by decide +kernel

end Blocklist

end Brdns
