import Brdns.Lib.HashMap
import Brdns.Lib.Text

/-! `lib/model`: accounts, rules, upstreams, and the payloads that create them. -/

namespace Brdns

open Lib

/-- How a call that did not return a value ended. -/
inductive Failure where
  | error (message : String)
  | panic (message : String)
  deriving DecidableEq

abbrev CplResult (α : Type) := Except Failure α

inductive Action where
  | Allow
  | Deny
  | Limit
  deriving DecidableEq

inductive TargetType where
  | Domain
  | Wildcard
  | Category
  deriving DecidableEq

inductive Window where
  | Hour
  | Day
  | Week
  | Month
  deriving DecidableEq

inductive UpstreamProtocol where
  | Dot
  | Doh
  | Udp
  deriving DecidableEq

structure Account where
  id : ℤ
  accountNumber : Text
  deriving DecidableEq

/-- `n as i32`, which wraps around. -/
def asI32 (n : ℕ) : ℤ := (n : ℤ).bmod (2 ^ 32)

/-- An entry of an account's ordered rule list. -/
structure Rule where
  id : ℤ
  accountId : ℤ
  position : ℤ
  action : Action
  targetType : TargetType
  targetValue : Text
  limitCount : Option ℤ
  limitWindow : Option Window
  enabled : Bool
  deriving DecidableEq

/-- A DNS upstream; `accountId = none` marks a preset. -/
structure Upstream where
  id : ℤ
  accountId : Option ℤ
  name : Text
  protocol : UpstreamProtocol
  host : Text
  port : UInt16
  addr : Option Text
  isPreset : Bool
  deriving DecidableEq

/-- What the pipeline needs for one account. -/
structure AccountPolicy where
  rules : List Rule
  upstream : Option Upstream
  deriving DecidableEq

structure NewRule where
  action : Action
  targetType : TargetType
  targetValue : Text
  limitCount : Option ℤ
  limitWindow : Option Window
  enabled : Bool
  deriving DecidableEq

structure NewUpstream where
  name : Text
  protocol : UpstreamProtocol
  host : Text
  port : UInt16
  addr : Option Text
  deriving DecidableEq

/-- Account number to policy. -/
abbrev Snapshot := HashMap Text AccountPolicy

/-- Domain to categories. -/
abbrev CategoryMap := HashMap Text (Finset Text)

end Brdns
