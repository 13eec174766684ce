import Brdns.Lib.Lines
import Brdns.Proofs.PercentDecoding

/-! DNS messages in DoH requests. A GET request carries the message in base64url, of which any
character may be written as a percent triplet; a POST request carries it in its body, of which only
the first chunk is read. -/

namespace Brdns

open Lib Percent

/-! ### Percent triplets -/

/-- The second text is the first with some characters written as `%` and two digits. -/
inductive Escaped : Text → Text → Prop where
  | nil : Escaped [] []
  | plain {s t : Text} (c : Char) : Escaped s t → Escaped (c :: s) (c :: t)
  | triplet {s t : Text} (c : Char) {high low : Char} :
      Text.toDigit 16 high = some (c.toNat / 16) → Text.toDigit 16 low = some (c.toNat % 16) →
      Escaped s t → Escaped (c :: s) ('%' :: high :: low :: t)

def isBase64Url (c : Char) : Bool := c.isAlphanum || c == '-' || c == '_'

theorem isBase64Url_ascii {c : Char} (h : isBase64Url c = true) : c.toNat < 128 := by
  by_contra hhigh
  have hhigh := Nat.le_of_not_lt hhigh
  simp only [isBase64Url, Char.isAlphanum, Char.isAlpha, Text.not_upper_of_not_ascii hhigh,
    Text.not_lower_of_not_ascii hhigh, Text.not_digit_of_not_ascii hhigh, Bool.false_or,
    Bool.or_eq_true, beq_iff_eq] at h
  rcases h with rfl | rfl <;> exact absurd hhigh (by decide)

theorem isBase64Url_ne_percent {c : Char} (h : isBase64Url c = true) : c ≠ '%' := by
  rintro rfl
  cases h

theorem escaped_settled {s t : Text} (h : Escaped s t) (hs : ∀ c ∈ s, isBase64Url c = true) :
    Settled t := by
  induction h with
  | nil => exact fun t ht => by simp at ht
  | plain c _ ih =>
    obtain ⟨hc, hs⟩ := List.forall_mem_cons.mp hs
    exact settled_cons.mpr ⟨fun heq => absurd heq (isBase64Url_ne_percent hc), ih hs⟩
  | triplet c hhigh hlow _ ih =>
    obtain ⟨-, hs⟩ := List.forall_mem_cons.mp hs
    refine settled_cons.mpr ⟨fun _ => (triplet_spec hhigh hlow _).1, ?_⟩
    rw [settled_pair (toDigit_ne_percent hhigh) (toDigit_ne_percent hlow)]
    exact ih hs

/-- The rule reads the escaped text as the text itself. -/
theorem decode_escaped {s t : Text} (h : Escaped s t) (hs : ∀ c ∈ s, isBase64Url c = true) :
    decode (Text.bytes t) = Text.bytes s := by
  induction h with
  | nil => rfl
  | plain c _ ih =>
    obtain ⟨hc, hs⟩ := List.forall_mem_cons.mp hs
    rw [Text.bytes_cons, decode_append (utf8EncodeChar_ne_percent (isBase64Url_ne_percent hc)),
      ih hs, Text.bytes_cons]
  | triplet c hhigh hlow _ ih =>
    obtain ⟨hc, hs⟩ := List.forall_mem_cons.mp hs
    have hpercent : ∀ t, Text.bytes ('%' :: t) = percent :: Text.bytes t := Text.bytes_cons '%'
    rw [hpercent, (triplet_spec hhigh hlow _).2, ih hs, Text.bytes_cons,
      Text.utf8EncodeChar_of_ascii (isBase64Url_ascii hc), Nat.div_add_mod]
    rfl

theorem percentDecode_escaped {s t : Text} (h : Escaped s t)
    (hs : ∀ c ∈ s, isBase64Url c = true) : percentDecode t = .ok s := by
  have hascii : Text.IsAscii s := fun c hc => isBase64Url_ascii (hs c hc)
  rw [percentDecode_of_settled (escaped_settled h hs), decode_escaped h hs,
    Text.fromUtf8Lossy_bytes hascii]

/-! ### GET -/

theorem dnsQueryParam_of_split {query value : Text} {before after : List Text}
    (hquery : Text.split '&' query = before ++ (dnsPrefix ++ value) :: after)
    (hbefore : ∀ p ∈ before, ¬ dnsPrefix <+: p) : dnsQueryParam (some query) = some value := by
  have hnone : before.findSome? (Text.stripPrefix dnsPrefix) = none := by
    rw [List.findSome?_eq_none_iff]
    exact fun p hp => Text.stripPrefix_eq_none.mpr (hbefore p hp)
  have hvalue : Text.stripPrefix dnsPrefix (dnsPrefix ++ value) = some value :=
    Text.stripPrefix_eq_some.mpr rfl
  rw [dnsQueryParam, Option.bind_some, hquery, List.findSome?_append, hnone, Option.none_or,
    List.findSome?_cons, hvalue]

section

variable {base64 : Base64} {m : Bytes} (hdecode : base64.decode (base64.encode m) = .ok m)
  (halphabet : ∀ c ∈ base64.encode m, isBase64Url c = true)

include hdecode halphabet

theorem extractParam_escaped {written query : Text} {before after : List Text}
    (hwritten : Escaped (base64.encode m) written)
    (hquery : Text.split '&' query = before ++ (dnsPrefix ++ written) :: after)
    (hbefore : ∀ p ∈ before, ¬ dnsPrefix <+: p) :
    extractParam base64 (some query) = .ok (some m) := by
  simp only [extractParam, dnsQueryParam_of_split hquery hbefore,
    percentDecode_escaped hwritten halphabet, hdecode]
  rfl

/-- A message survives its way through the query of a GET request, whichever characters of its
base64url text are escaped and whatever other parameters stand around it. -/
theorem extractQuery_get {written query : Text} {before after : List Text}
    (hwritten : Escaped (base64.encode m) written)
    (hquery : Text.split '&' query = before ++ (dnsPrefix ++ written) :: after)
    (hbefore : ∀ p ∈ before, ¬ dnsPrefix <+: p) {σ : Type} {session : Session σ}
    (hmethod : session.method = .GET) (huri : session.query = some query) (s : σ) :
    (extractQuery base64 session s).1 = .ok (some m) := by
  rw [extractQuery, hmethod, huri]
  exact extractParam_escaped hdecode halphabet hwritten hquery hbefore

end

def base64One : Base64 where
  encode m := if m = [0xFB, 0xF0] then "-_A".toList else []
  decode text := if text = "-_A".toList then .ok [0xFB, 0xF0] else .error (.error "base64")

theorem base64One_alphabet : ∀ c ∈ base64One.encode [0xFB, 0xF0], isBase64Url c = true := by
  simp [base64One, isBase64Url]

theorem extractQuery_get_one :
    (extractQuery base64One
      ⟨.GET, some "ct=dns&dns=%2d_%41&dns=AA".toList, fun s : Unit => (.ok none, s)⟩ ()).1 =
      .ok (some [0xFB, 0xF0]) := by
  have hwritten : Escaped (base64One.encode [0xFB, 0xF0]) "%2d_%41".toList :=
    .triplet '-' (by decide) (by decide) (.plain '_' (.triplet 'A' (by decide) (by decide) .nil))
  have hquery : Text.split '&' "ct=dns&dns=%2d_%41&dns=AA".toList =
      ["ct=dns".toList] ++ (dnsPrefix ++ "%2d_%41".toList) :: ["dns=AA".toList] := by
    decide +kernel
  exact extractQuery_get rfl base64One_alphabet hwritten hquery (by decide) rfl rfl ()

/-! ### POST -/

/-- Reading a body gives its chunks one after the other and then nothing. -/
def Delivers {σ : Type} (readRequestBody : σ → CplResult (Option Bytes) × σ) :
    σ → List Bytes → Prop
  | s, [] => (readRequestBody s).1 = .ok none
  | s, chunk :: chunks =>
    (readRequestBody s).1 = .ok (some chunk) ∧
      Delivers readRequestBody (readRequestBody s).2 chunks

def readChunk : List Bytes → CplResult (Option Bytes) × List Bytes
  | [] => (.ok none, [])
  | chunk :: chunks => (.ok (some chunk), chunks)

theorem delivers_readChunk (chunks : List Bytes) : Delivers readChunk chunks chunks := by
  induction chunks with
  | nil => rfl
  | cons chunk chunks ih => exact ⟨rfl, ih⟩

theorem Escaped.refl (s : Text) : Escaped s s := by
  induction s with
  | nil => exact .nil
  | cons c s ih => exact .plain c ih

/-- The request that the upstream transport makes is read as the message. -/
theorem extractParam_query {base64 : Base64} {m : Bytes}
    (hdecode : base64.decode (base64.encode m) = .ok m)
    (halphabet : ∀ c ∈ base64.encode m, isBase64Url c = true) :
    extractParam base64 (some (DohTransport.query base64 m)) = .ok (some m) := by
  have hsep : '&' ∉ DohTransport.query base64 m := by
    intro hmem
    rw [DohTransport.query, List.mem_append] at hmem
    rcases hmem with hmem | hmem
    · exact absurd hmem (by decide)
    · exact absurd (halphabet '&' hmem) (by decide)
  exact extractParam_escaped hdecode halphabet (Escaped.refl _) (Text.split_of_not_mem hsep)
    (List.forall_mem_nil _)

theorem extractQuery_post {base64 : Base64} {σ : Type} {session : Session σ}
    (hmethod : session.method = .POST) (s : σ) :
    (extractQuery base64 session s).1 = (session.readRequestBody s).1 := by
  simp only [extractQuery, hmethod]
  split
  all_goals
    rename_i hread
    rw [hread]

/-- Only the first chunk is read: a POST request yields the message, as a GET request does, exactly
if its body arrives in one chunk. -/
theorem extractQuery_post_iff {base64 : Base64} {m : Bytes}
    (hdecode : base64.decode (base64.encode m) = .ok m)
    (halphabet : ∀ c ∈ base64.encode m, isBase64Url c = true) {σ : Type} {session : Session σ}
    (hmethod : session.method = .POST) {s : σ} {chunks : List Bytes}
    (hreads : Delivers session.readRequestBody s chunks) (hne : ∀ chunk ∈ chunks, chunk ≠ [])
    (hm : chunks.flatten = m) :
    ((extractQuery base64 session s).1 = .ok (some m) ∧
      (extractQuery base64 session s).1 =
        (extractQuery base64
          { session with method := .GET, query := some (DohTransport.query base64 m) } s).1) ↔
      chunks.length = 1 := by
  have hget : (extractQuery base64
      { session with method := .GET, query := some (DohTransport.query base64 m) } s).1 =
        .ok (some m) := extractParam_query hdecode halphabet
  rw [hget, and_self_iff, extractQuery_post hmethod]
  rcases chunks with _ | ⟨chunk, _ | ⟨next, chunks⟩⟩
  · have hnone : (session.readRequestBody s).1 = .ok none := hreads
    rw [hnone]
    simp
  · rw [hreads.1, ← hm]
    simp
  · have hnext : next ≠ [] := hne next (by simp)
    rw [hreads.1, ← hm]
    simp [hnext]

theorem extractQuery_post_iff_one :
    ((extractQuery base64One ⟨.POST, none, readChunk⟩ [[0xFB, 0xF0]]).1 =
        .ok (some [0xFB, 0xF0]) ∧
      (extractQuery base64One ⟨.POST, none, readChunk⟩ [[0xFB, 0xF0]]).1 =
        (extractQuery base64One
          ⟨.GET, some (DohTransport.query base64One [0xFB, 0xF0]), readChunk⟩
            [[0xFB, 0xF0]]).1) ↔
      [[(0xFB : UInt8), 0xF0]].length = 1 := by
  have hmethod : (⟨.POST, none, readChunk⟩ : Session (List Bytes)).method = .POST := rfl
  exact extractQuery_post_iff rfl base64One_alphabet hmethod (delivers_readChunk [[0xFB, 0xF0]])
    (by simp) rfl

/-- The header of a query in one chunk and its question in the next. -/
theorem extractQuery_post_split :
    ¬ ∀ chunks : List Bytes, (∀ chunk ∈ chunks, chunk ≠ []) →
      (extractQuery base64One ⟨.POST, none, readChunk⟩ chunks).1 =
        .ok (some chunks.flatten) := by
  intro h
  have hsplit := h [[0xAB, 0xCD, 1, 0, 0, 1, 0, 0, 0, 0, 0, 0], [0, 0, 1, 0, 1]] (by decide)
  revert hsplit
  decide

end Brdns
