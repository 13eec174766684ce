import Brdns.Lib.Machine
import Brdns.Spec.Model

/-! `lib/upstream.rs` and what it builds from `lib/transport`: one shared transport for each
distinct upstream. -/

namespace Brdns

open Lib

/-- A transport by the arguments it was built from. -/
inductive Transport where
  | DotTransport (server : Text) (port : UInt16)
  | DohTransport (host : Text) (port : UInt16) (addr : Option Text)
  | UdpTransport (server : Text) (port : UInt16)
  deriving DecidableEq

/-- A shared pointer to a transport; `Arc::ptr_eq` compares the first field. -/
structure TransportArc where
  ptr : ℕ
  transport : Transport
  deriving DecidableEq

/-- Keys are compared part by part; the protocol's own `Hash` is that of its text. -/
abbrev PoolKey := UpstreamProtocol × Text × UInt16 × Option Text

structure UpstreamPool where
  fallback : TransportArc
  cache : HashMap PoolKey TransportArc

namespace UpstreamPool

def new (fallback : Transport) : UpstreamPool := ⟨⟨0, fallback⟩, ∅⟩

def keyOf (upstream : Upstream) : PoolKey :=
  (upstream.protocol, upstream.host, upstream.port, upstream.addr)

def buildTransport (upstream : Upstream) : Transport :=
  match upstream.protocol with
  -- `DotTransport::new` gives a `Result`, but has no way to fail on what it is given
  | .Dot => .DotTransport upstream.host upstream.port
  | .Doh => .DohTransport upstream.host upstream.port upstream.addr
  | .Udp => .UdpTransport upstream.host upstream.port

/-- The pool never drops an entry, so the number of entries numbers the next allocation. -/
def get (self : UpstreamPool) (upstream : Upstream) : TransportArc × UpstreamPool :=
  match self.cache.lookup (keyOf upstream) with
  | some transport => (transport, self)
  | none =>
    let transport : TransportArc := ⟨self.cache.len + 1, buildTransport upstream⟩
    (transport, { self with cache := self.cache.insert (keyOf upstream) transport })

/-- The shared pool; its lock makes one step of each call. -/
def machine : Machine UpstreamPool Upstream TransportArc := ⟨get⟩

end UpstreamPool

end Brdns
