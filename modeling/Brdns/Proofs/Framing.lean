import Brdns.Spec.Dot

/-! Framing of DoT connections. Lengths are cut to sixteen bits when they are written, so a reader
stays in sync exactly as long as no message is longer than a prefix can say. -/

namespace Brdns

open Lib Framing

/-! ### Towards a client -/

namespace DotApp

variable {σ : Type} (handleQuery : σ → Bytes → CplResult Bytes × σ)

/-- What the pipeline answers to the queries of a connection, up to its first failure. -/
def responses (s : σ) : List Bytes → List Bytes
  | [] => []
  | query :: queries =>
    match handleQuery s query with
    | (.error _, _) => []
    | (.ok response, s) => response :: responses s queries

theorem serve_nil (s : σ) : serve handleQuery s [] = ([], s) := by
  rw [serve]
  rfl

theorem serve_cons (s : σ) (query : Message) (input : Bytes) :
    serve handleQuery s (frame query ++ input) =
      match handleQuery s query.1 with
      | (.error _, s) => ([], s)
      | (.ok response, s) =>
        (withLengthPrefix response ++ (serve handleQuery s input).1,
          (serve handleQuery s input).2) := by
  rw [serve]
  split
  · next hnone => rw [readFrame_frame] at hnone; cases hnone
  · next hsome =>
    rw [readFrame_frame] at hsome
    cases hsome
    rfl

/-- What is written is the prefixed responses, whatever their lengths. -/
theorem serve_frames (s : σ) (queries : List Message) :
    (serve handleQuery s (frames queries)).1 =
      (responses handleQuery s (queries.map Subtype.val)).flatMap withLengthPrefix := by
  induction queries generalizing s with
  | nil =>
    have hnil : frames [] = [] := rfl
    rw [hnil, serve_nil]
    rfl
  | cons query queries ih =>
    have hcons : frames (query :: queries) = frame query ++ frames queries := List.flatMap_cons
    rw [hcons, serve_cons, List.map_cons, responses]
    rcases handleQuery s query.1 with ⟨e | response, s⟩
    · rfl
    · dsimp only
      rw [ih, List.flatMap_cons]

def answers (self : DotApp) (handleQuery : Text → σ → Bytes → CplResult Bytes × σ) (s : σ)
    (sni : Option Text) (queries : List Message) : List Bytes :=
  responses (handleQuery (self.accountFor sni)) s (queries.map Subtype.val)

end DotApp

/-! ### Reading what was written -/

theorem withLengthPrefix_message (m : Message) : withLengthPrefix m.1 = frame m := rfl

theorem readFrames_withLengthPrefix_ne_nil (m rest : Bytes) :
    (readFrames (withLengthPrefix m ++ rest)).1 ≠ [] := by
  refine readFrames_prefixed_ne_nil ?_ rest
  rw [UInt16.toNat_ofNat']
  exact Nat.mod_le _ _

/-- A reader of prefixed messages gets those before the first one that is too long, and nothing
after them, exactly when none is too long. -/
theorem readFrames_flatMap_iff (ms : List Bytes) :
    readFrames (ms.flatMap withLengthPrefix) = (ms.takeWhile fun m => m.length < 65536, []) ↔
      ∀ m ∈ ms, m.length < 65536 := by
  induction ms with
  | nil =>
    have hnil : readFrames [] = ([], []) := readFrames_of_none rfl
    simpa using hnil
  | cons m ms ih =>
    rw [List.flatMap_cons, List.forall_mem_cons]
    by_cases hm : m.length < 65536
    · have hread := readFrames_of_some
        (readFrame_frame ⟨m, hm⟩ (ms.flatMap withLengthPrefix))
      rw [← withLengthPrefix_message] at hread
      rw [hread, List.takeWhile_cons_of_pos (by simpa using hm), and_iff_right hm, ← ih]
      simp [Prod.ext_iff]
    · rw [List.takeWhile_cons_of_neg (by simpa using hm)]
      constructor
      · intro h
        exact absurd (congrArg Prod.fst h) (readFrames_withLengthPrefix_ne_nil m _)
      · rintro ⟨hfits, -⟩
        exact absurd hfits hm

theorem readFrames_withLengthPrefix_iff (m : Bytes) :
    readFrames (withLengthPrefix m) = ([m], []) ↔ m.length < 65536 := by
  constructor
  · intro hread
    have hmem : m ∈ (readFrames (withLengthPrefix m)).1 := by
      rw [hread]
      exact List.mem_singleton_self m
    exact length_of_mem_readFrames hmem
  · intro hm
    have hnil : readFrames [] = ([], []) := readFrames_of_none rfl
    have hread := readFrames_frames [⟨m, hm⟩] []
    rw [hnil, frames, List.flatMap_singleton, List.append_nil] at hread
    exact hread

/-! ### Towards an upstream -/

namespace DotTransport

/-- What `send_recv` has written unless it fails. -/
theorem sendRecv_written (peer : Peer) (data : Bytes) :
    (∃ e, (sendRecv peer data).1 = .error e) ∨ (sendRecv peer data).2 = withLengthPrefix data := by
  unfold sendRecv
  split
  · next e _ => exact .inl ⟨e, rfl⟩
  · dsimp only
    split
    · next e _ => exact .inl ⟨e, rfl⟩
    · split
      · exact .inl ⟨_, rfl⟩
      · exact .inr rfl

def emptyReply : Peer := ⟨.ok (), fun _ => .ok (), fun _ => [0, 0]⟩

theorem sendRecv_emptyReply (data : Bytes) :
    sendRecv emptyReply data = (.ok [], withLengthPrefix data) := rfl

theorem sendRecv_framed_iff (data : Bytes) :
    (∀ peer, (∃ e, (sendRecv peer data).1 = .error e) ∨
      readFrames (sendRecv peer data).2 = ([data], [])) ↔ data.length < 65536 := by
  rw [← readFrames_withLengthPrefix_iff]
  constructor
  · intro h
    rcases h emptyReply with ⟨e, he⟩ | h
    · rw [sendRecv_emptyReply] at he
      cases he
    · rwa [sendRecv_emptyReply] at h
  · intro h peer
    rcases sendRecv_written peer data with he | hwritten
    · exact .inl he
    · exact .inr (hwritten ▸ h)

end DotTransport

/-- A client reads exactly the responses up to the pipeline's first failure or the first one that
cannot be framed, and an upstream exactly the query, if and only if no message is longer than
65535 octets. -/
theorem framing_in_sync_iff {σ : Type} (handleQuery : Text → σ → Bytes → CplResult Bytes × σ)
    (app : DotApp) (s : σ) (sni : Option Text) (queries : List Message) (data : Bytes) :
    (readFrames (app.processNew handleQuery s sni (frames queries)).1 =
        ((app.answers handleQuery s sni queries).takeWhile fun r => r.length < 65536, []) ↔
      ∀ r ∈ app.answers handleQuery s sni queries, r.length < 65536) ∧
    ((∀ peer, (∃ e, (DotTransport.sendRecv peer data).1 = .error e) ∨
      readFrames (DotTransport.sendRecv peer data).2 = ([data], [])) ↔ data.length < 65536) := by
  refine ⟨?_, DotTransport.sendRecv_framed_iff data⟩
  rw [DotApp.processNew, DotApp.serve_frames]
  exact readFrames_flatMap_iff _

def longAnswer (_account : Text) (_s : Unit) (_query : Bytes) : CplResult Bytes × Unit :=
  (.ok (List.replicate 65536 0), ())

/-- One such answer, and one query of that length, put their connections out of sync. -/
theorem long_messages_out_of_sync :
    readFrames ((DotApp.mk [] []).processNew longAnswer () none
      (frames [⟨[], by decide⟩])).1 ≠ ([], []) ∧
    (DotTransport.sendRecv DotTransport.emptyReply (List.replicate 65536 0)).1 = .ok [] ∧
    readFrames (DotTransport.sendRecv DotTransport.emptyReply (List.replicate 65536 0)).2 ≠
      ([List.replicate 65536 0], []) := by
  refine ⟨fun h => ?_, rfl, fun h => ?_⟩
  · have hread := congrArg Prod.fst h
    rw [DotApp.processNew, DotApp.serve_frames] at hread
    exact readFrames_withLengthPrefix_ne_nil _ _ hread
  · rw [DotTransport.sendRecv_emptyReply, readFrames_withLengthPrefix_iff,
      List.length_replicate] at h
    exact absurd h (by decide)

end Brdns
