import Mathlib.Data.List.Basic
import Mathlib.Tactic.Common

/-! Domain names in a DNS message (RFC 1035, section 4.1.4): labels of 1 to 63 octets up to a zero
octet, where two octets with the top bits set point to where the name goes on. -/

namespace Lib.DnsName

/-- The name at `pos` of the message `msg` expands to `labels` after following `jumps` pointers.
In place it ends just before `stop`: after its zero octet, or after its first pointer. -/
inductive Expands (msg : List UInt8) : (pos jumps : ℕ) → (labels : List (List UInt8)) →
    (stop : ℕ) → Prop
  | root {pos : ℕ} (hzero : msg[pos]? = some 0) : Expands msg pos 0 [] (pos + 1)
  | label {pos jumps stop : ℕ} {len : UInt8} {labels : List (List UInt8)}
      (hlen : msg[pos]? = some len) (hpos : 1 ≤ len.toNat) (hmax : len.toNat ≤ 63)
      (hin : pos + 1 + len.toNat ≤ msg.length)
      (hrest : Expands msg (pos + 1 + len.toNat) jumps labels stop) :
      Expands msg pos jumps ((msg.drop (pos + 1)).take len.toNat :: labels) stop
  | pointer {pos jumps stop : ℕ} {hi lo : UInt8} {labels : List (List UInt8)}
      (hhi : msg[pos]? = some hi) (htop : 192 ≤ hi.toNat) (hlo : msg[pos + 1]? = some lo)
      (hrest : Expands msg ((hi.toNat - 192) * 256 + lo.toNat) jumps labels stop) :
      Expands msg pos (jumps + 1) labels (pos + 2)

/-- An octet with ASCII capitals made small (RFC 4343). -/
def foldCase (b : UInt8) : UInt8 := if 65 ≤ b ∧ b ≤ 90 then b + 32 else b

/-- The same labels up to ASCII letter case. -/
def SameLabels (labels labels' : List (List UInt8)) : Prop :=
  labels.map (List.map foldCase) = labels'.map (List.map foldCase)

instance (labels labels' : List (List UInt8)) : Decidable (SameLabels labels labels') :=
  inferInstanceAs (Decidable (_ = _))

/-- The uncompressed form of a name. -/
def wire (labels : List (List UInt8)) : List UInt8 :=
  (labels.flatMap fun l => UInt8.ofNat l.length :: l) ++ [0]

@[simp] theorem wire_nil : wire [] = [0] := rfl

theorem wire_cons (l : List UInt8) (labels : List (List UInt8)) :
    wire (l :: labels) = UInt8.ofNat l.length :: (l ++ wire labels) := by
  simp [wire]

/-! ### The octets a reader goes through -/

/-- The same with every octet below 192 taken for a length: the only test is for pointers. -/
inductive Unfolds (msg : List UInt8) : (pos jumps : ℕ) → (labels : List (List UInt8)) →
    (stop : ℕ) → Prop
  | root {pos : ℕ} (hzero : msg[pos]? = some 0) : Unfolds msg pos 0 [] (pos + 1)
  | label {pos jumps stop : ℕ} {len : UInt8} {labels : List (List UInt8)}
      (hlen : msg[pos]? = some len) (hpos : 1 ≤ len.toNat) (hmax : len.toNat < 192)
      (hin : pos + 1 + len.toNat ≤ msg.length)
      (hrest : Unfolds msg (pos + 1 + len.toNat) jumps labels stop) :
      Unfolds msg pos jumps ((msg.drop (pos + 1)).take len.toNat :: labels) stop
  | pointer {pos jumps stop : ℕ} {hi lo : UInt8} {labels : List (List UInt8)}
      (hhi : msg[pos]? = some hi) (htop : 192 ≤ hi.toNat) (hlo : msg[pos + 1]? = some lo)
      (hrest : Unfolds msg ((hi.toNat - 192) * 256 + lo.toNat) jumps labels stop) :
      Unfolds msg pos (jumps + 1) labels (pos + 2)

/-- On the way from `pos` the octet at `head` is looked at as a length or a pointer, after
`jumps` pointers. -/
inductive Visits (msg : List UInt8) : (pos head jumps : ℕ) → Prop
  | here {pos : ℕ} : Visits msg pos pos 0
  | label {pos head jumps : ℕ} {len : UInt8} (hlen : msg[pos]? = some len)
      (hpos : 1 ≤ len.toNat) (hmax : len.toNat < 192) (hin : pos + 1 + len.toNat ≤ msg.length)
      (hrest : Visits msg (pos + 1 + len.toNat) head jumps) : Visits msg pos head jumps
  | pointer {pos head jumps : ℕ} {hi lo : UInt8} (hhi : msg[pos]? = some hi)
      (htop : 192 ≤ hi.toNat) (hlo : msg[pos + 1]? = some lo)
      (hrest : Visits msg ((hi.toNat - 192) * 256 + lo.toNat) head jumps) :
      Visits msg pos head (jumps + 1)

/-- On the way from `pos` the octet at `i` is used: as a length, inside a label, or as one of the
two octets of a pointer. -/
def Touches (msg : List UInt8) (pos i : ℕ) : Prop :=
  ∃ head jumps b, Visits msg pos head jumps ∧ msg[head]? = some b ∧
    (i = head ∨ b.toNat < 192 ∧ head < i ∧ i ≤ head + b.toNat ∨ 192 ≤ b.toNat ∧ i = head + 1)

/-- Where the name at `pos` ends in place. -/
def nameEnd (msg : List UInt8) (pos : ℕ) : ℕ :=
  if h : pos < msg.length then
    if msg[pos] = 0 then pos + 1
    else if 192 ≤ msg[pos].toNat then pos + 2
    else nameEnd msg (pos + 1 + msg[pos].toNat)
  else pos
  termination_by msg.length - pos

theorem le_nameEnd (msg : List UInt8) (pos : ℕ) : pos ≤ nameEnd msg pos := by
  fun_induction nameEnd msg pos with
  | case1 | case2 | case3 => omega
  | case4 => exact Nat.le_refl _

variable {msg msg' : List UInt8} {pos jumps stop : ℕ} {labels : List (List UInt8)}

theorem Expands.unfolds (h : Expands msg pos jumps labels stop) :
    Unfolds msg pos jumps labels stop := by
  induction h with
  | root hzero => exact .root hzero
  | label hlen hpos hmax hin _ ih => exact .label hlen hpos (by omega) hin ih
  | pointer hhi htop hlo _ ih => exact .pointer hhi htop hlo ih

theorem length_label {pos n : ℕ} (hin : pos + 1 + n ≤ msg.length) :
    ((msg.drop (pos + 1)).take n).length = n := by
  simp only [List.length_take, List.length_drop]
  omega

/-- With short labels only the two readings agree. -/
theorem Unfolds.expands (h : Unfolds msg pos jumps labels stop)
    (hshort : ∀ l ∈ labels, l.length ≤ 63) : Expands msg pos jumps labels stop := by
  induction h with
  | root hzero => exact .root hzero
  | label hlen hpos hmax hin _ ih =>
    obtain ⟨hfirst, hrest⟩ := List.forall_mem_cons.mp hshort
    rw [length_label hin] at hfirst
    exact .label hlen hpos hfirst hin (ih hrest)
  | pointer hhi htop hlo _ ih => exact .pointer hhi htop hlo (ih hshort)

namespace Unfolds

/-- A length octet is followed by its label. -/
theorem of_label {len : UInt8} (h : Unfolds msg pos jumps labels stop)
    (hlen : msg[pos]? = some len) (hpos : 1 ≤ len.toNat) (hmax : len.toNat < 192) :
    pos + 1 + len.toNat ≤ msg.length ∧ ∃ labels',
      labels = (msg.drop (pos + 1)).take len.toNat :: labels' ∧
        Unfolds msg (pos + 1 + len.toNat) jumps labels' stop := by
  cases h with
  | root hzero =>
    obtain rfl := Option.some.inj (hlen.symm.trans hzero)
    simp at hpos
  | label hlen' _ _ hin hrest =>
    obtain rfl := Option.some.inj (hlen.symm.trans hlen')
    exact ⟨hin, _, rfl, hrest⟩
  | pointer hhi htop _ _ =>
    obtain rfl := Option.some.inj (hlen.symm.trans hhi)
    omega

/-- A pointer is followed. -/
theorem of_pointer {hi : UInt8} (h : Unfolds msg pos jumps labels stop)
    (hhi : msg[pos]? = some hi) (htop : 192 ≤ hi.toNat) :
    stop = pos + 2 ∧ ∃ lo jumps' stop', msg[pos + 1]? = some lo ∧ jumps = jumps' + 1 ∧
      Unfolds msg ((hi.toNat - 192) * 256 + lo.toNat) jumps' labels stop' := by
  cases h with
  | root hzero =>
    obtain rfl := Option.some.inj (hhi.symm.trans hzero)
    simp at htop
  | label hlen _ hmax _ _ =>
    obtain rfl := Option.some.inj (hhi.symm.trans hlen)
    omega
  | pointer hhi' _ hlo hrest =>
    obtain rfl := Option.some.inj (hhi.symm.trans hhi')
    exact ⟨rfl, _, _, _, hlo, rfl, hrest⟩

/-- A zero octet ends the name. -/
theorem of_root (h : Unfolds msg pos jumps labels stop) (hzero : msg[pos]? = some 0) :
    jumps = 0 ∧ labels = [] ∧ stop = pos + 1 := by
  cases h with
  | root _ => exact ⟨rfl, rfl, rfl⟩
  | label hlen hpos _ _ _ =>
    obtain rfl := Option.some.inj (hzero.symm.trans hlen)
    simp at hpos
  | pointer hhi htop _ _ =>
    obtain rfl := Option.some.inj (hzero.symm.trans hhi)
    simp at htop

/-- The octets leave no choice. -/
theorem unique {jumps' stop' : ℕ} {labels' : List (List UInt8)}
    (h : Unfolds msg pos jumps labels stop) (h' : Unfolds msg pos jumps' labels' stop') :
    jumps = jumps' ∧ labels = labels' ∧ stop = stop' := by
  induction h generalizing jumps' labels' stop' with
  | root hzero =>
    obtain ⟨rfl, rfl, rfl⟩ := h'.of_root hzero
    exact ⟨rfl, rfl, rfl⟩
  | label hlen hpos hmax _ _ ih =>
    obtain ⟨-, labels₁, rfl, hrest'⟩ := h'.of_label hlen hpos hmax
    obtain ⟨rfl, rfl, rfl⟩ := ih hrest'
    exact ⟨rfl, rfl, rfl⟩
  | pointer hhi htop hlo _ ih =>
    obtain ⟨rfl, lo', jumps₁, stop₁, hlo', rfl, hrest'⟩ := h'.of_pointer hhi htop
    obtain rfl := Option.some.inj (hlo.symm.trans hlo')
    obtain ⟨rfl, rfl, -⟩ := ih hrest'
    exact ⟨rfl, rfl, rfl⟩

/-- From every octet looked at the name goes on, with the pointers that are left. -/
theorem of_visits {head j : ℕ} (h : Unfolds msg pos jumps labels stop)
    (hv : Visits msg pos head j) :
    j ≤ jumps ∧ ∃ labels' stop', Unfolds msg head (jumps - j) labels' stop' := by
  induction hv generalizing jumps labels stop with
  | here => exact ⟨Nat.zero_le _, labels, stop, h⟩
  | label hlen hpos hmax _ _ ih =>
    obtain ⟨-, _, -, hrest⟩ := h.of_label hlen hpos hmax
    exact ih hrest
  | pointer hhi htop hlo _ ih =>
    obtain ⟨-, lo', jumps₁, _, hlo', rfl, hrest⟩ := h.of_pointer hhi htop
    obtain rfl := Option.some.inj (hlo.symm.trans hlo')
    obtain ⟨hle, labels', stop', hrest'⟩ := ih hrest
    rw [Nat.add_sub_add_right]
    exact ⟨Nat.succ_le_succ hle, labels', stop', hrest'⟩

/-- No octet is looked at twice with different numbers of pointers: there is no way around. -/
theorem visits_once {head j j' : ℕ} (h : Unfolds msg pos jumps labels stop)
    (hv : Visits msg pos head j) (hv' : Visits msg pos head j') : j = j' := by
  obtain ⟨hle, _, _, hrest⟩ := h.of_visits hv
  obtain ⟨hle', _, _, hrest'⟩ := h.of_visits hv'
  have := (hrest.unique hrest').1
  omega

/-- Every label stands behind a length that was looked at. -/
theorem label_visited (h : Unfolds msg pos jumps labels stop) :
    ∀ l ∈ labels, ∃ head j len, Visits msg pos head j ∧ j ≤ jumps ∧ msg[head]? = some len ∧
      1 ≤ len.toNat ∧ len.toNat < 192 ∧ head + 1 + len.toNat ≤ msg.length ∧
      l = (msg.drop (head + 1)).take len.toNat := by
  induction h with
  | root _ => simp
  | label hlen hpos hmax hin _ ih =>
    refine List.forall_mem_cons.mpr
      ⟨⟨_, 0, _, .here, Nat.zero_le _, hlen, hpos, hmax, hin, rfl⟩, fun l hl => ?_⟩
    obtain ⟨head, j, len, hv, hrest⟩ := ih l hl
    exact ⟨head, j, len, .label hlen hpos hmax hin hv, hrest⟩
  | pointer hhi htop hlo _ ih =>
    intro l hl
    obtain ⟨head, j, len, hv, hj, hrest⟩ := ih l hl
    exact ⟨head, j + 1, len, .pointer hhi htop hlo hv, Nat.succ_le_succ hj, hrest⟩

/-- In place a name ends after its zero octet, or after its first pointer. -/
theorem stop_visited (h : Unfolds msg pos jumps labels stop) :
    ∃ head b, Visits msg pos head 0 ∧ msg[head]? = some b ∧
      (jumps = 0 ∧ b = 0 ∧ stop = head + 1 ∨ 1 ≤ jumps ∧ 192 ≤ b.toNat ∧ stop = head + 2) := by
  induction h with
  | root hzero => exact ⟨_, 0, .here, hzero, .inl ⟨rfl, rfl, rfl⟩⟩
  | label hlen hpos hmax hin _ ih =>
    obtain ⟨head, b, hv, hb, hstop⟩ := ih
    exact ⟨head, b, .label hlen hpos hmax hin hv, hb, hstop⟩
  | pointer hhi htop hlo _ _ => exact ⟨_, _, .here, hhi, .inr ⟨Nat.le_add_left 1 _, htop, rfl⟩⟩

theorem start_lt (h : Unfolds msg pos jumps labels stop) : pos < msg.length := by
  cases h with
  | root hget | label hget _ _ _ _ | pointer hget _ _ _ =>
    exact (List.getElem?_eq_some_iff.mp hget).1

theorem stop_le (h : Unfolds msg pos jumps labels stop) : pos < stop ∧ stop ≤ msg.length := by
  induction h with
  | root hzero =>
    have := (List.getElem?_eq_some_iff.mp hzero).1
    omega
  | label _ _ _ _ _ ih => omega
  | pointer _ _ hlo _ _ =>
    have := (List.getElem?_eq_some_iff.mp hlo).1
    omega

theorem nameEnd_eq (h : Unfolds msg pos jumps labels stop) : nameEnd msg pos = stop := by
  have hne {b : UInt8} (hb : 1 ≤ b.toNat) : b ≠ 0 := by
    rintro rfl
    simp at hb
  induction h with
  | root hzero =>
    obtain ⟨hlt, hget⟩ := List.getElem?_eq_some_iff.mp hzero
    rw [nameEnd, dif_pos hlt, if_pos hget]
  | label hlen hpos hmax _ _ ih =>
    obtain ⟨hlt, hget⟩ := List.getElem?_eq_some_iff.mp hlen
    rw [nameEnd, dif_pos hlt, hget, if_neg (hne hpos), if_neg (by omega), ih]
  | pointer hhi htop _ _ _ =>
    obtain ⟨hlt, hget⟩ := List.getElem?_eq_some_iff.mp hhi
    rw [nameEnd, dif_pos hlt, hget, if_neg (hne (by omega)), if_pos htop]

/-- Each piece of a name between two pointers fits into the message. -/
theorem wire_length_le (h : Unfolds msg pos jumps labels stop) :
    pos + (wire labels).length ≤ (jumps + 1) * msg.length := by
  induction h with
  | root hzero =>
    have := (List.getElem?_eq_some_iff.mp hzero).1
    simp
    omega
  | label _ _ _ hin _ ih =>
    rw [wire_cons, List.length_cons, List.length_append, length_label hin]
    omega
  | pointer hhi _ _ _ ih =>
    have := (List.getElem?_eq_some_iff.mp hhi).1
    rw [Nat.succ_mul]
    omega

/-! ### Messages that agree on a name -/

theorem touches_label {len : UInt8} {i : ℕ} (hlen : msg[pos]? = some len) (hpos : 1 ≤ len.toNat)
    (hmax : len.toNat < 192) (hin : pos + 1 + len.toNat ≤ msg.length)
    (h : Touches msg (pos + 1 + len.toNat) i) : Touches msg pos i := by
  obtain ⟨head, j, b, hv, hrest⟩ := h
  exact ⟨head, j, b, .label hlen hpos hmax hin hv, hrest⟩

theorem touches_pointer {hi lo : UInt8} {i : ℕ} (hhi : msg[pos]? = some hi)
    (htop : 192 ≤ hi.toNat) (hlo : msg[pos + 1]? = some lo)
    (h : Touches msg ((hi.toNat - 192) * 256 + lo.toNat) i) : Touches msg pos i := by
  obtain ⟨head, j, b, hv, hrest⟩ := h
  exact ⟨head, j + 1, b, .pointer hhi htop hlo hv, hrest⟩

/-- A name is the same in every message that keeps the octets it uses. -/
theorem kept (h : Unfolds msg pos jumps labels stop)
    (hkeep : ∀ (i : ℕ) b, Touches msg pos i → msg[i]? = some b → msg'[i]? = some b) :
    Unfolds msg' pos jumps labels stop := by
  induction h with
  | root hzero => exact .root (hkeep _ _ ⟨_, 0, 0, .here, hzero, .inl rfl⟩ hzero)
  | @label pos jumps stop len labels hlen hpos hmax hin _ ih =>
    have hslice (n : ℕ) (hn : n < len.toNat) : msg'[pos + 1 + n]? = msg[pos + 1 + n]? := by
      obtain ⟨b, hb⟩ : ∃ b, msg[pos + 1 + n]? = some b :=
        ⟨_, List.getElem?_eq_getElem (by omega)⟩
      rw [hb]
      exact hkeep _ b ⟨pos, 0, len, .here, hlen, .inr (.inl ⟨hmax, by omega, by omega⟩)⟩ hb
    have hin' : pos + 1 + len.toNat ≤ msg'.length := by
      have hlast := hslice (len.toNat - 1) (by omega)
      rw [List.getElem?_eq_getElem (by omega : pos + 1 + (len.toNat - 1) < msg.length)] at hlast
      have := (List.getElem?_eq_some_iff.mp hlast).1
      omega
    have htext : (msg.drop (pos + 1)).take len.toNat = (msg'.drop (pos + 1)).take len.toNat := by
      apply List.ext_getElem?
      intro n
      simp only [List.getElem?_take, List.getElem?_drop]
      split_ifs with hn
      · exact (hslice n hn).symm
      · rfl
    rw [htext]
    exact .label (hkeep _ _ ⟨_, 0, len, .here, hlen, .inl rfl⟩ hlen) hpos hmax hin'
      (ih fun i b hi => hkeep i b (touches_label hlen hpos hmax hin hi))
  | @pointer pos jumps stop hi lo labels hhi htop hlo _ ih =>
    exact .pointer (hkeep _ _ ⟨_, 0, hi, .here, hhi, .inl rfl⟩ hhi) htop
      (hkeep _ _ ⟨_, 0, hi, .here, hhi, .inr (.inr ⟨htop, rfl⟩)⟩ hlo)
      (ih fun i b hi => hkeep i b (touches_pointer hhi htop hlo hi))

/-- A name uses no octet outside the message. -/
theorem touches_lt {i : ℕ} (h : Unfolds msg pos jumps labels stop) (hi : Touches msg pos i) :
    i < msg.length := by
  obtain ⟨head, j, b, hv, hb, hi⟩ := hi
  obtain ⟨-, _, _, hrest⟩ := h.of_visits hv
  have hlt := (List.getElem?_eq_some_iff.mp hb).1
  rcases hi with rfl | ⟨hmax, hgt, hle⟩ | ⟨htop, rfl⟩
  · exact hlt
  · have := (hrest.of_label hb (by omega) hmax).1
    omega
  · obtain ⟨-, lo, _, _, hlo, -⟩ := hrest.of_pointer hb htop
    exact (List.getElem?_eq_some_iff.mp hlo).1

end Unfolds

/-! ### The uncompressed form -/

/-- The uncompressed form unfolds to the labels it was made of, wherever it stands. -/
theorem unfolds_wire (labels : List (List UInt8))
    (h : ∀ l ∈ labels, 1 ≤ l.length ∧ l.length < 192) (before after : List UInt8) :
    Unfolds (before ++ wire labels ++ after) before.length 0 labels
      (before.length + (wire labels).length) := by
  induction labels generalizing before with
  | nil => exact .root (by simp)
  | cons l labels ih =>
    obtain ⟨hpos, hmax⟩ := h l List.mem_cons_self
    have hmsg : before ++ wire (l :: labels) ++ after =
        before ++ UInt8.ofNat l.length :: l ++ wire labels ++ after := by
      rw [wire_cons]
      simp
    have hlen : (UInt8.ofNat l.length).toNat = l.length := by
      rw [UInt8.toNat_ofNat']
      omega
    have hrest := ih (fun l' hl' => h l' (List.mem_cons_of_mem l hl'))
      (before ++ UInt8.ofNat l.length :: l)
    have hnext : (before ++ UInt8.ofNat l.length :: l).length =
        before.length + 1 + (UInt8.ofNat l.length).toNat := by
      rw [hlen, List.length_append, List.length_cons]
      omega
    have hstop : before.length + (wire (l :: labels)).length =
        (before ++ UInt8.ofNat l.length :: l).length + (wire labels).length := by
      rw [wire_cons]
      simp only [List.length_append, List.length_cons]
      omega
    have htext : ((before ++ UInt8.ofNat l.length :: l ++ wire labels ++ after).drop
        (before.length + 1)).take (UInt8.ofNat l.length).toNat = l := by
      rw [hlen]
      simp [List.drop_append, List.drop_eq_nil_of_le (Nat.le_succ before.length)]
    rw [hmsg, hstop]
    rw [hnext] at hrest
    have hfirst : (before ++ UInt8.ofNat l.length :: l ++ wire labels ++ after)[before.length]? =
        some (UInt8.ofNat l.length) := by simp
    have hl := Unfolds.label hfirst (by omega) (by omega) (by rw [hlen]; simp; omega) hrest
    rwa [htext, ← hnext] at hl

/-- With labels of legal size it expands to them. -/
theorem expands_wire (labels : List (List UInt8))
    (h : ∀ l ∈ labels, 1 ≤ l.length ∧ l.length ≤ 63) (before after : List UInt8) :
    Expands (before ++ wire labels ++ after) before.length 0 labels
      (before.length + (wire labels).length) :=
  (unfolds_wire labels (fun l hl => ⟨(h l hl).1, by have := (h l hl).2; omega⟩) before
    after).expands fun l hl => (h l hl).2

/-! ### Cut messages: one that keeps every octet of a shorter one is read through the same octets -/

theorem octet_back {i : ℕ} {b : UInt8} (hkeep : ∀ (i : ℕ) b, msg[i]? = some b → msg'[i]? = some b)
    (hi : i < msg.length) (hb : msg'[i]? = some b) : msg[i]? = some b := by
  rw [hkeep i _ (List.getElem?_eq_getElem hi)] at hb
  rw [List.getElem?_eq_getElem hi, hb]

theorem Visits.of_prefix {head j : ℕ} (h : Unfolds msg pos jumps labels stop)
    (hkeep : ∀ (i : ℕ) b, msg[i]? = some b → msg'[i]? = some b) (hv : Visits msg' pos head j) :
    Visits msg pos head j := by
  induction hv generalizing jumps labels stop with
  | here => exact .here
  | label hlen hpos hmax _ _ ih =>
    have hlen' := octet_back hkeep h.start_lt hlen
    obtain ⟨hin, _, -, hrest⟩ := h.of_label hlen' hpos hmax
    exact .label hlen' hpos hmax hin (ih hrest)
  | pointer hhi htop hlo _ ih =>
    have hhi' := octet_back hkeep h.start_lt hhi
    obtain ⟨-, lo', _, _, hlo', -, hrest⟩ := h.of_pointer hhi' htop
    obtain rfl := Option.some.inj (hlo.symm.trans (hkeep _ _ hlo'))
    exact .pointer hhi' htop hlo' (ih hrest)

theorem Touches.of_prefix {i : ℕ} (h : Unfolds msg pos jumps labels stop)
    (hkeep : ∀ (i : ℕ) b, msg[i]? = some b → msg'[i]? = some b) (hi : Touches msg' pos i) :
    Touches msg pos i := by
  obtain ⟨head, j, b, hv, hb, hi⟩ := hi
  have hv' := hv.of_prefix h hkeep
  obtain ⟨-, _, _, hrest⟩ := h.of_visits hv'
  exact ⟨head, j, b, hv', octet_back hkeep hrest.start_lt hb, hi⟩

end Lib.DnsName
