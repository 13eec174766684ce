import Brdns.Spec.Feeds

/-! The `[blocklist]` section of `lib/config.rs` and the feeds that `bin/s.rs` makes of it with
`lib/blocklist.rs`. -/

namespace Brdns

open Lib

structure FeedConfig where
  name : Text
  url : Text
  format : Text
  categories : List Text
  deriving DecidableEq

structure BlocklistConfig where
  enabled : Bool
  refreshIntervalSecs : UInt64
  /-- no feeds stand for the built-in ones -/
  feeds : List FeedConfig
  deriving DecidableEq

def BlocklistConfig.default : BlocklistConfig := ⟨false, 86400, []⟩

def FeedFormat.fromStr (s : Text) : Option FeedFormat :=
  if s = "plain".toList then some .Plain
  else if s = "hosts".toList then some .Hosts
  else if s = "adblock".toList then some .Adblock
  else none

/-- An unknown format is taken for a plain list. -/
def Feed.ofConfig (c : FeedConfig) : Feed :=
  ⟨c.name, c.url, (FeedFormat.fromStr c.format).getD .Plain, c.categories⟩

def defaultFeeds : List Feed :=
  [⟨"oisd".toList, "https://small.oisd.nl/domainswild".toList, .Plain, ["ads".toList]⟩,
    ⟨"stevenblack".toList,
      "https://raw.githubusercontent.com/StevenBlack/hosts/master/hosts".toList, .Hosts,
      ["ads".toList]⟩,
    ⟨"hagezi-multi".toList,
      "https://raw.githubusercontent.com/hagezi/dns-blocklists/main/adblock/multi.txt".toList,
      .Adblock, ["ads".toList]⟩,
    ⟨"adguard-dns".toList,
      "https://adguardteam.github.io/AdGuardSDNSFilter/Filters/filter.txt".toList, .Adblock,
      ["ads".toList]⟩]

/-- The feeds that `main` ingests. -/
def BlocklistConfig.ingested (self : BlocklistConfig) : List Feed :=
  if self.feeds.isEmpty then defaultFeeds else self.feeds.map Feed.ofConfig

/-- The seconds between two ingestions, at least one. -/
def BlocklistConfig.interval (self : BlocklistConfig) : ℕ := max self.refreshIntervalSecs.toNat 1

end Brdns
