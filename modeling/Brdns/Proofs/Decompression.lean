import Brdns.Proofs.Names

/-! Name decompression is exact: on octets that only spell labels, pointers and the root,
`read_qname` and the expansion of the name agree on what is accepted, on the text and on where the
cursor goes. -/

namespace Brdns

open Lib DnsName BytePacketBuffer

/-- On the way from `pos`, as far as `read_qname` goes, every octet looked at is zero, the length
of an ASCII label of at most 63 octets, or the first octet of a pointer. -/
def PlainChain (msg : Bytes) (pos : ℕ) : Prop :=
  ∀ head jumps b, jumps ≤ maxJumps → Visits msg pos head jumps → msg[head]? = some b →
    b = 0 ∨ 192 ≤ b.toNat ∨ 1 ≤ b.toNat ∧ b.toNat ≤ 63 ∧
      (head + 1 + b.toNat ≤ msg.length → ∀ o ∈ (msg.drop (head + 1)).take b.toNat, o.toNat < 128)

/-- Every name of ASCII labels is spelled so. -/
theorem PlainChain.of_expands {msg : Bytes} {pos jumps stop : ℕ} {labels : List Bytes}
    (h : Expands msg pos jumps labels stop) (hascii : ∀ l ∈ labels, ∀ o ∈ l, o.toNat < 128) :
    PlainChain msg pos := by
  induction h with
  | root hzero =>
    intro head j b hj hv hb
    cases hv with
    | here =>
      left
      exact Option.some.inj (hb.symm.trans hzero)
    | label hlen hpos _ _ _ => simp_all
    | pointer hhi htop _ _ => simp_all
  | label hlen hpos hmax hin _ ih =>
    obtain ⟨hfirst, hrest⟩ := List.forall_mem_cons.mp hascii
    intro head j b hj hv hb
    cases hv with
    | here =>
      obtain rfl := Option.some.inj (hb.symm.trans hlen)
      exact .inr (.inr ⟨hpos, hmax, fun _ => hfirst⟩)
    | label hlen' _ _ _ hv =>
      obtain rfl := Option.some.inj (hlen.symm.trans hlen')
      exact ih hrest head j b hj hv hb
    | pointer hhi htop _ _ =>
      obtain rfl := Option.some.inj (hlen.symm.trans hhi)
      omega
  | pointer hhi htop hlo _ ih =>
    intro head j b hj hv hb
    cases hv with
    | here =>
      obtain rfl := Option.some.inj (hb.symm.trans hhi)
      exact .inr (.inl htop)
    | label hlen _ hmax _ _ =>
      obtain rfl := Option.some.inj (hhi.symm.trans hlen)
      omega
    | pointer hhi' _ hlo' hv =>
      obtain rfl := Option.some.inj (hhi.symm.trans hhi')
      obtain rfl := Option.some.inj (hlo.symm.trans hlo')
      exact ih hascii head _ b (by omega) hv hb

/-- On a plain chain the labels are those of an expansion, and ASCII. -/
theorem PlainChain.expands {msg : Bytes} {pos jumps stop : ℕ} {labels : List Bytes}
    (hchain : PlainChain msg pos) (h : Unfolds msg pos jumps labels stop)
    (hle : jumps ≤ maxJumps) :
    Expands msg pos jumps labels stop ∧ ∀ l ∈ labels, ∀ o ∈ l, o.toNat < 128 := by
  have hlabels : ∀ l ∈ labels, l.length ≤ 63 ∧ ∀ o ∈ l, o.toNat < 128 := by
    intro l hl
    obtain ⟨head, j, len, hv, hj, hlen, hpos, hmax, hin, rfl⟩ := h.label_visited l hl
    rcases hchain head j len (hj.trans hle) hv hlen with rfl | htop | ⟨-, hshort, hascii⟩
    · simp at hpos
    · omega
    · rw [length_label hin]
      exact ⟨hshort, hascii hin⟩
  exact ⟨h.expands fun l hl => (hlabels l hl).1, fun l hl => (hlabels l hl).2⟩

/-- The text of ASCII labels: lowercased and joined by dots. -/
def lowerText (labels : List Bytes) : Text :=
  Text.join '.' (labels.map fun l => (l.map foldCase).map fun b => Char.ofNat b.toNat)

section

variable [Text.UnicodeTables]

theorem lowerText_eq {labels : List Bytes} (h : ∀ l ∈ labels, ∀ o ∈ l, o.toNat < 128) :
    Text.join '.' (labels.map labelText) = lowerText labels := by
  rw [lowerText]
  exact congrArg _ (List.map_congr_left fun l hl => labelText_of_ascii (h l hl))

/-- On a plain chain `read_qname` succeeds exactly on the expansions with at most five pointers,
returns their labels, stops after the zero octet or after the first pointer, and fails on every
chain that comes back to an octet over a pointer. -/
theorem readQname_exact {msg : Bytes} {pos : ℕ} (hchain : PlainChain msg pos) :
    ((∃ name c, readQname [] ⟨msg, pos⟩ = .ok name c) ↔
        ∃ jumps labels stop, Expands msg pos jumps labels stop ∧ jumps ≤ 5) ∧
      (∀ name c, readQname [] ⟨msg, pos⟩ = .ok name c →
        ∃ jumps labels stop, Expands msg pos jumps labels stop ∧ jumps ≤ 5 ∧
          name = lowerText labels ∧ c = ⟨msg, stop⟩ ∧
          ∃ head b, Visits msg pos head 0 ∧ msg[head]? = some b ∧
            (jumps = 0 ∧ b = 0 ∧ stop = head + 1 ∨
              1 ≤ jumps ∧ 192 ≤ b.toNat ∧ stop = head + 2)) ∧
      ∀ head j j', Visits msg pos head j → Visits msg pos head j' → j ≠ j' →
        ∃ e c, readQname [] ⟨msg, pos⟩ = .error e c := by
  have hread {name : Text} {c : BytePacketBuffer} (hok : readQname [] ⟨msg, pos⟩ = .ok name c) :
      ∃ jumps labels stop, Expands msg pos jumps labels stop ∧ jumps ≤ 5 ∧
        name = lowerText labels ∧ c = ⟨msg, stop⟩ := by
    obtain ⟨jumps, labels, stop, h, hle, rfl, rfl⟩ := readQname_ok_iff.mp hok
    obtain ⟨hexp, hascii⟩ := hchain.expands h hle
    exact ⟨jumps, labels, stop, hexp, hle, lowerText_eq hascii, rfl⟩
  refine ⟨⟨?_, ?_⟩, ?_, ?_⟩
  · rintro ⟨name, c, hok⟩
    obtain ⟨jumps, labels, stop, hexp, hle, -⟩ := hread hok
    exact ⟨jumps, labels, stop, hexp, hle⟩
  · rintro ⟨jumps, labels, stop, hexp, hle⟩
    exact ⟨_, _, readQname_ok_iff.mpr ⟨jumps, labels, stop, hexp.unfolds, hle, rfl, rfl⟩⟩
  · intro name c hok
    obtain ⟨jumps, labels, stop, hexp, hle, hname, hc⟩ := hread hok
    exact ⟨jumps, labels, stop, hexp, hle, hname, hc, hexp.unfolds.stop_visited⟩
  · intro head j j' hv hv' hne
    cases hres : readQname [] ⟨msg, pos⟩ with
    | error e c => exact ⟨e, c, rfl⟩
    | ok name c =>
      obtain ⟨jumps, labels, stop, hexp, -⟩ := hread hres
      exact absurd (hexp.unfolds.visits_once hv hv') hne

end

section

attribute [local instance] Text.asciiTables

def pointedName : Bytes := [1, 97, 192, 4, 1, 66, 0]

theorem pointedName_expands : Expands pointedName 0 1 [[97], [66]] 4 :=
  .label (by rfl : pointedName[0]? = some 1) (by decide) (by decide) (by decide)
    (.pointer (by rfl : pointedName[2]? = some 192) (by decide)
      (by rfl : pointedName[3]? = some 4)
      (.label (by rfl : pointedName[4]? = some 1) (by decide) (by decide) (by decide)
        (.root rfl)))

theorem readQname_exact_pointed :
    ((∃ name c, readQname [] ⟨pointedName, 0⟩ = .ok name c) ↔
        ∃ jumps labels stop, Expands pointedName 0 jumps labels stop ∧ jumps ≤ 5) ∧
      (∀ name c, readQname [] ⟨pointedName, 0⟩ = .ok name c →
        ∃ jumps labels stop, Expands pointedName 0 jumps labels stop ∧ jumps ≤ 5 ∧
          name = lowerText labels ∧ c = ⟨pointedName, stop⟩ ∧
          ∃ head b, Visits pointedName 0 head 0 ∧ pointedName[head]? = some b ∧
            (jumps = 0 ∧ b = 0 ∧ stop = head + 1 ∨
              1 ≤ jumps ∧ 192 ≤ b.toNat ∧ stop = head + 2)) ∧
      ∀ head j j', Visits pointedName 0 head j → Visits pointedName 0 head j' → j ≠ j' →
        ∃ e c, readQname [] ⟨pointedName, 0⟩ = .error e c :=
  readQname_exact (.of_expands pointedName_expands (by simp))

/-- A pointer to itself. -/
example : readQname [] ⟨[192, 0], 0⟩ = .error (.jumpLimit 5) ⟨[192, 0], 2⟩ := by decide +kernel

end

end Brdns
