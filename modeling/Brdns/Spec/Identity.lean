import Brdns.Lib.Text

/-! `lib/identity.rs` and the `account_for` of the two receivers: the account of a connection from
the SNI of its handshake. -/

namespace Brdns

open Lib

def accountFromSni (sni domain : Text) : Option Text :=
  let sni := Text.trimEndMatches '.' sni
  let domain := Text.trimMatches '.' domain
  if domain.isEmpty || sni.isEmpty then none
  -- the base domain alone is not an account
  else if sni = domain then none
  else
    match Text.stripSuffix ('.' :: domain) sni with
    | none => none
    | some account => if account.isEmpty || account.contains '.' then none else some account

example : accountFromSni "acct.dns.example.com.".toList "dns.example.com".toList =
    some "acct".toList ∧
      accountFromSni "a.b.dns.example.com".toList "dns.example.com".toList = none := by
  decide +kernel

/-- What both receivers do with the SNI, if the client sent one. -/
def resolveAccount (domain fallbackAccount : Text) (sni : Option Text) : Text :=
  match sni.bind fun name => accountFromSni name domain with
  | some account => account
  | none => fallbackAccount

structure DotApp where
  domain : Text
  fallbackAccount : Text

def DotApp.accountFor (self : DotApp) (sni : Option Text) : Text :=
  resolveAccount self.domain self.fallbackAccount sni

/-- The `[server]` section of the configuration, as far as the receivers read it. -/
structure ServerConfig where
  domain : Text
  fallbackAccount : Text

structure DohReceiver where
  server : ServerConfig

def DohReceiver.accountFor (self : DohReceiver) (sni : Option Text) : Text :=
  resolveAccount self.server.domain self.server.fallbackAccount sni

end Brdns
