import Brdns.Proofs.Wire
import Brdns.Spec.Pipeline

/-! The decision on a query: it is taken by the first enabled rule that matches, and it depends
on the name the first question denotes, not on the octets that spell it. -/

namespace Brdns

open Lib DnsName CursorM BytePacketBuffer

/-! ### First match -/

namespace RuleEngine

variable {qname : Text} {inCategory : Text → Bool} {rules : List Rule}

def firstMatch (qname : Text) (inCategory : Text → Bool) (rules : List Rule) : Option Rule :=
  rules.find? fun rule => rule.enabled && ruleMatches qname inCategory rule

theorem evaluate_eq (qname : Text) (inCategory : Text → Bool) (rules : List Rule) :
    evaluate qname inCategory rules = (firstMatch qname inCategory rules).map decisionOf := by
  induction rules with
  | nil => rfl
  | cons rule rules ih =>
    rw [firstMatch] at ih ⊢
    rw [evaluate, List.find?_cons]
    cases rule.enabled with
    | false => simpa using ih
    | true =>
      cases ruleMatches qname inCategory rule with
      | false => simpa using ih
      | true => rfl

theorem firstMatch_mem {rule : Rule} (h : firstMatch qname inCategory rules = some rule) :
    rule ∈ rules := List.mem_of_find?_eq_some h

theorem decisionOf_deny {rule : Rule} : decisionOf rule = .Deny ↔ rule.action = .Deny := by
  rw [decisionOf]
  cases rule.action <;> simp

end RuleEngine

/-! ### The first question -/

section

variable [Text.UnicodeTables]

/-- The first question starts right after the header. -/
theorem first_question_read {raw : Bytes} {packet : DnsPacket} {c : BytePacketBuffer}
    (h : DnsPacket.fromBuffer (fromBytes raw) = .ok packet c) (hne : packet.questions ≠ []) :
    ∃ c', readQname [] ⟨raw, 12⟩ = .ok (Blocking.firstName packet) c' := by
  obtain ⟨header, c₁, hheader, h⟩ := bind_ok_iff.mp h
  obtain ⟨questions, c₂, hquestions, h⟩ := bind_ok_iff.mp h
  obtain ⟨answers, c₃, -, h⟩ := bind_ok_iff.mp h
  obtain ⟨authorities, c₄, -, h⟩ := bind_ok_iff.mp h
  obtain ⟨resources, c₅, -, h⟩ := bind_ok_iff.mp h
  cases h
  have hstart : c₁ = ⟨raw, 12⟩ := DnsHeader.read_fixed.advances _ _ _ hheader
  generalize header.questions.toNat = n at hquestions
  cases n with
  | zero =>
    cases hquestions
    exact absurd rfl hne
  | succ n =>
    obtain ⟨question, c₆, hquestion, hrest⟩ := bind_ok_iff.mp hquestions
    obtain ⟨rest, c₇, -, hrest⟩ := bind_ok_iff.mp hrest
    cases hrest
    obtain ⟨name, c₈, hname, hquestion⟩ := bind_ok_iff.mp hquestion
    obtain ⟨qtypeNum, c₉, -, hquestion⟩ := bind_ok_iff.mp hquestion
    obtain ⟨class', c₁₀, -, hquestion⟩ := bind_ok_iff.mp hquestion
    cases hquestion
    exact ⟨c₈, hstart ▸ hname⟩

/-- The name a query is judged by is the one its first question denotes. -/
theorem firstName_of_expands {raw : Bytes} {packet : DnsPacket} {c : BytePacketBuffer}
    {jumps stop : ℕ} {labels : List Bytes}
    (h : DnsPacket.fromBuffer (fromBytes raw) = .ok packet c) (hne : packet.questions ≠ [])
    (hname : Expands raw 12 jumps labels stop) :
    Blocking.firstName packet = Text.join '.' (labels.map labelText) := by
  obtain ⟨c', hread⟩ := first_question_read h hne
  exact readQname_of_expands hname hread

theorem queryName_of_ok {raw : Bytes} {packet : DnsPacket} {c : BytePacketBuffer}
    (h : DnsPacket.fromBuffer (fromBytes raw) = .ok packet c) :
    Pipeline.queryName raw = .ok (Blocking.firstName packet) := by
  rw [Pipeline.queryName, runBuffer, h]
  rfl

theorem queryName_of_error {raw : Bytes} {e : BufferError} {c : BytePacketBuffer}
    (h : DnsPacket.fromBuffer (fromBytes raw) = .error e c) :
    Pipeline.queryName raw = .error (.error e.message) := by
  rw [Pipeline.queryName, runBuffer, h]
  rfl

/-! ### Spelling -/

theorem map_labelText_congr {labels labels' : List Bytes} (hsame : SameLabels labels labels')
    (h : ∀ l ∈ labels, ∀ b ∈ l, b.toNat < 128) (h' : ∀ l ∈ labels', ∀ b ∈ l, b.toNat < 128) :
    labels.map labelText = labels'.map labelText := by
  have hfold : ∀ ls : List Bytes, (∀ l ∈ ls, ∀ b ∈ l, b.toNat < 128) → ls.map labelText =
      (ls.map (List.map foldCase)).map (List.map fun b => Char.ofNat b.toNat) := by
    intro ls hls
    rw [List.map_map]
    exact List.map_congr_left fun l hl => labelText_of_ascii (hls l hl)
  rw [hfold labels h, hfold labels' h', hsame]

/-- Two accepted queries whose first questions denote the same ASCII labels up to letter case
get the same decision from the same rules. -/
theorem same_labels_same_decision (categories : CategoryIndex) (rules : List Rule)
    {raw raw' : Bytes} {packet packet' : DnsPacket} {c c' : BytePacketBuffer}
    {jumps jumps' stop stop' : ℕ} {labels labels' : List Bytes}
    (hok : DnsPacket.fromBuffer (fromBytes raw) = .ok packet c)
    (hok' : DnsPacket.fromBuffer (fromBytes raw') = .ok packet' c')
    (hne : packet.questions ≠ []) (hne' : packet'.questions ≠ [])
    (hname : Expands raw 12 jumps labels stop) (hname' : Expands raw' 12 jumps' labels' stop')
    (hascii : ∀ l ∈ labels, ∀ b ∈ l, b.toNat < 128)
    (hascii' : ∀ l ∈ labels', ∀ b ∈ l, b.toNat < 128) (hsame : SameLabels labels labels') :
    ∃ decision, (Pipeline.queryName raw).map (Pipeline.decision categories rules) = .ok decision ∧
      (Pipeline.queryName raw').map (Pipeline.decision categories rules) = .ok decision := by
  refine ⟨Pipeline.decision categories rules (Blocking.firstName packet), ?_, ?_⟩
  · rw [queryName_of_ok hok]
    rfl
  · rw [queryName_of_ok hok', firstName_of_expands hok hne hname,
      firstName_of_expands hok' hne' hname', map_labelText_congr hsame hascii hascii']
    rfl

end

section

attribute [local instance] Text.asciiTables

/-- One question for `A.b`. -/
def plainQuery : Bytes := [0, 7, 1, 0, 0, 1, 0, 0, 0, 0, 0, 0, 1, 65, 1, 98, 0, 0, 1, 0, 1]

/-- One question for `a.B` through a pointer to the end of the message. -/
def pointerQuery : Bytes :=
  [0, 9, 0, 0, 0, 1, 0, 0, 0, 0, 0, 0, 192, 18, 0, 28, 0, 1, 1, 97, 1, 66, 0]

def adsIndex : CategoryIndex := Finmap.singleton "a.b".toList {"ads".toList}

def denyAds : Rule := ⟨1, 1, 0, .Deny, .Category, "ads".toList, none, none, true⟩

theorem same_labels_same_decision_pointer :
    (Pipeline.queryName plainQuery).map (Pipeline.decision adsIndex [denyAds]) =
        .ok (some .Deny) ∧
      (Pipeline.queryName pointerQuery).map (Pipeline.decision adsIndex [denyAds]) =
        .ok (some .Deny) := by
  have hok : DnsPacket.fromBuffer (fromBytes plainQuery) =
      .ok ⟨DnsHeader.ofFlags 7 1 0 1 0 0 0, [⟨['a', '.', 'b'], .A⟩], [], [], []⟩
        ⟨plainQuery, 21⟩ := by decide +kernel
  have hok' : DnsPacket.fromBuffer (fromBytes pointerQuery) =
      .ok ⟨DnsHeader.ofFlags 9 0 0 1 0 0 0, [⟨['a', '.', 'b'], .AAAA⟩], [], [], []⟩
        ⟨pointerQuery, 18⟩ := by decide +kernel
  have hname : Expands plainQuery 12 0 [[65], [98]] 17 :=
    .label (by rfl : plainQuery[12]? = some 1) (by decide) (by decide) (by decide)
      (.label (by rfl : plainQuery[14]? = some 1) (by decide) (by decide) (by decide) (.root rfl))
  have hname' : Expands pointerQuery 12 1 [[97], [66]] 14 :=
    .pointer (by rfl : pointerQuery[12]? = some 192) (by decide)
      (by rfl : pointerQuery[13]? = some 18)
      (.label (by rfl : pointerQuery[18]? = some 1) (by decide) (by decide) (by decide)
        (.label (by rfl : pointerQuery[20]? = some 1) (by decide) (by decide) (by decide)
          (.root rfl)))
  have hdenied : (Pipeline.queryName plainQuery).map (Pipeline.decision adsIndex [denyAds]) =
      .ok (some .Deny) := by decide +kernel
  obtain ⟨decision, hdecision, hdecision'⟩ := same_labels_same_decision adsIndex [denyAds] hok hok'
    (by simp) (by simp) hname hname' (by simp) (by simp) (by decide)
  rw [hdenied] at hdecision
  cases hdecision
  exact ⟨hdenied, hdecision'⟩

end

end Brdns
