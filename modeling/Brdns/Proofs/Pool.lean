import Brdns.Proofs.Query

/-! The transport pool over all histories of calls: every call gets a transport built as for its
own record, and two calls share one exactly when their records agree on the pool's key. -/

namespace Brdns

open Lib

namespace UpstreamPool

/-! ### One call -/

/-- A call finds its key, or files a new transport under it. -/
theorem get_cases (pool : UpstreamPool) (up : Upstream) :
    pool.cache.lookup (keyOf up) = some (pool.get up).1 ∧ (pool.get up).2 = pool ∨
      keyOf up ∉ pool.cache ∧ (pool.get up).1.ptr = pool.cache.len + 1 ∧
        (pool.get up).2.cache = pool.cache.insert (keyOf up) (pool.get up).1 := by
  unfold get
  split
  · next arc hit => exact .inl ⟨hit, rfl⟩
  · next miss => exact .inr ⟨Finmap.lookup_eq_none.mp miss, rfl, rfl⟩

theorem lookup_get (pool : UpstreamPool) (up : Upstream) :
    (pool.get up).2.cache.lookup (keyOf up) = some (pool.get up).1 := by
  rcases get_cases pool up with ⟨hit, hsame⟩ | ⟨-, -, hcache⟩
  · rw [hsame, hit]
  · rw [hcache, HashMap.lookup_insert, if_pos rfl]

theorem lookup_get_of_some {pool : UpstreamPool} {key : PoolKey} {arc : TransportArc}
    (h : pool.cache.lookup key = some arc) (up : Upstream) :
    (pool.get up).2.cache.lookup key = some arc := by
  rcases get_cases pool up with ⟨-, hsame⟩ | ⟨hnew, -, hcache⟩
  · rw [hsame, h]
  · have hne : key ≠ keyOf up := by
      rintro rfl
      exact hnew (Finmap.mem_of_lookup_eq_some h)
    rw [hcache, HashMap.lookup_insert, if_neg hne, h]

theorem keys_get (pool : UpstreamPool) (up : Upstream) :
    (pool.get up).2.cache.keys = insert (keyOf up) pool.cache.keys := by
  rcases get_cases pool up with ⟨hit, hsame⟩ | ⟨-, -, hcache⟩
  · have hmem := Finmap.mem_keys.mpr (Finmap.mem_of_lookup_eq_some hit)
    rw [hsame, Finset.insert_eq_of_mem hmem]
  · rw [hcache, HashMap.keys_insert]

/-! ### Allocations -/

structure Allotted (pool : UpstreamPool) : Prop where
  numbered : ∀ key arc, pool.cache.lookup key = some arc → arc.ptr ≤ pool.cache.len
  distinct : ∀ key key' arc arc', pool.cache.lookup key = some arc →
    pool.cache.lookup key' = some arc' → arc.ptr = arc'.ptr → key = key'

theorem allotted_new (fallback : Transport) : Allotted (new fallback) :=
  ⟨fun key arc h => by simp [new] at h, fun key key' arc arc' h => by simp [new] at h⟩

theorem Allotted.get {pool : UpstreamPool} (h : Allotted pool) (up : Upstream) :
    Allotted (pool.get up).2 := by
  have hkeys := keys_get pool up
  rcases get_cases pool up with ⟨-, hsame⟩ | ⟨hnew, hptr, hcache⟩
  · rw [hsame]
    exact h
  · have hlen : (pool.get up).2.cache.len = pool.cache.len + 1 := by
      rw [HashMap.len, hkeys]
      exact Finset.card_insert_of_notMem fun hmem => hnew (Finmap.mem_keys.mp hmem)
    have hlookup (key : PoolKey) (arc : TransportArc)
        (hit : (pool.get up).2.cache.lookup key = some arc) :
        key = keyOf up ∧ arc.ptr = pool.cache.len + 1 ∨ pool.cache.lookup key = some arc := by
      rw [hcache, HashMap.lookup_insert] at hit
      split_ifs at hit with hkey
      · cases hit
        exact .inl ⟨hkey, hptr⟩
      · exact .inr hit
    constructor
    · intro key arc hit
      rcases hlookup key arc hit with ⟨-, hp⟩ | hold
      · omega
      · have hle := h.numbered key arc hold
        omega
    · intro key key' arc arc' hit hit' heq
      rcases hlookup key arc hit with ⟨hkey, hp⟩ | hold <;>
        rcases hlookup key' arc' hit' with ⟨hkey', hp'⟩ | hold'
      · rw [hkey, hkey']
      · have hle := h.numbered key' arc' hold'
        omega
      · have hle := h.numbered key arc hold
        omega
      · exact h.distinct key key' arc arc' hold hold' heq

/-! ### Histories -/

/-- What holds after any calls: each call's transport is the one pooled under its key, and the
keys of the pool are those of the calls. -/
structure Pooled (fallback : Transport) (t : List (Upstream × TransportArc))
    (pool : UpstreamPool) : Prop where
  sound : Sound fallback pool
  allotted : Allotted pool
  found : ∀ x ∈ t, pool.cache.lookup (keyOf x.1) = some x.2
  keys : pool.cache.keys = (t.map fun x => keyOf x.1).toFinset

theorem Pooled.get {fallback : Transport} {t : List (Upstream × TransportArc)}
    {pool : UpstreamPool} (h : Pooled fallback t pool) (up : Upstream) :
    Pooled fallback (t ++ [(up, (pool.get up).1)]) (pool.get up).2 where
  sound := get_sound h.sound up
  allotted := h.allotted.get up
  found := by
    intro x hx
    rcases List.mem_append.mp hx with hx | hx
    · exact lookup_get_of_some (h.found x hx) up
    · rw [List.mem_singleton.mp hx]
      exact lookup_get pool up
  keys := by
    rw [keys_get, h.keys]
    ext key
    simp

theorem pooled (fallback : Transport) (ups : List Upstream) :
    Pooled fallback (machine.trace (new fallback) ups) (machine.exec (new fallback) ups) :=
  machine.trace_invariant (Pooled fallback) (new fallback)
    ⟨sound_new fallback, allotted_new fallback, fun _ hx => (List.not_mem_nil hx).elim, rfl⟩
    (fun _ _ up h => h.get up) ups

/-- Over every history of calls: each gets a transport with the fields of its own record, two get
the same one exactly when their records agree on protocol, host, port and address, and the pool has
as many transports as there were different keys. -/
theorem pool_exact (fallback : Transport) (ups : List Upstream) :
    (∀ x ∈ machine.trace (new fallback) ups, x.2.transport =
        match x.1.protocol with
        | .Dot => .DotTransport x.1.host x.1.port
        | .Doh => .DohTransport x.1.host x.1.port x.1.addr
        | .Udp => .UdpTransport x.1.host x.1.port) ∧
      (∀ x ∈ machine.trace (new fallback) ups, ∀ y ∈ machine.trace (new fallback) ups,
        x.2.ptr = y.2.ptr ↔ x.1.protocol = y.1.protocol ∧ x.1.host = y.1.host ∧
          x.1.port = y.1.port ∧ x.1.addr = y.1.addr) ∧
      (machine.exec (new fallback) ups).cache.len = (ups.map keyOf).toFinset.card := by
  have h := pooled fallback ups
  refine ⟨fun x hx => h.sound.built x.1 x.2 (h.found x hx), ?_, ?_⟩
  · intro x hx y hy
    have hkey : keyOf x.1 = keyOf y.1 ↔ x.1.protocol = y.1.protocol ∧ x.1.host = y.1.host ∧
        x.1.port = y.1.port ∧ x.1.addr = y.1.addr := by simp only [keyOf, Prod.mk.injEq]
    rw [← hkey]
    constructor
    · exact h.allotted.distinct _ _ _ _ (h.found x hx) (h.found y hy)
    · intro heq
      have hfound := h.found y hy
      rw [← heq, h.found x hx] at hfound
      rw [Option.some.inj hfound]
  · have hcalls : (machine.trace (new fallback) ups).map (fun x => keyOf x.1) = ups.map keyOf := by
      rw [← Function.comp_def, ← List.map_map, machine.map_fst_trace]
    rw [HashMap.len, h.keys, hcalls]

end UpstreamPool

end Brdns
