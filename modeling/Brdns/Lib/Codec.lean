import Mathlib.Data.List.Basic
import Mathlib.Logic.Function.Iterate
import Mathlib.Tactic.Common

/-! Readers and writers over a buffer with a cursor. `Decodes` says that a reader turns one
encoding into one value wherever the encoding stands; `Emits` says that a writer puts one
encoding after what is already written. Both compose along `bind`, so a round trip is read off
the two programs. -/

namespace Lib

structure Cursor (α : Type) where
  buf : List α
  pos : ℕ
  deriving DecidableEq

instance Result.decEq {ε σ α : Type} [DecidableEq ε] [DecidableEq σ] [DecidableEq α] :
    DecidableEq (EStateM.Result ε σ α)
  | .ok a s, .ok b t => decidable_of_iff (a = b ∧ s = t) (by simp)
  | .error e s, .error e' t => decidable_of_iff (e = e' ∧ s = t) (by simp)
  | .ok _ _, .error _ _ | .error _ _, .ok _ _ => isFalse nofun

/-- A reader or writer over a cursor. An error keeps the cursor where it was raised. -/
abbrev CursorM (ε α β : Type) := EStateM ε (Cursor α) β

namespace Cursor

variable {α : Type}

def ofList (l : List α) : Cursor α := ⟨l, 0⟩

/-- What stands before the cursor. -/
def written (c : Cursor α) : List α := c.buf.take c.pos

end Cursor

namespace CursorM

variable {ε α β γ : Type}

theorem bind_apply (p : CursorM ε α β) (f : β → CursorM ε α γ) (c : Cursor α) :
    (p >>= f) c = match p c with
      | .ok v c' => f v c'
      | .error e c' => .error e c' := by
  change EStateM.bind p f c = _
  unfold EStateM.bind
  cases p c <;> rfl

theorem bind_of_ok {p : CursorM ε α β} {f : β → CursorM ε α γ} {c c' : Cursor α} {v : β}
    (h : p c = .ok v c') : (p >>= f) c = f v c' := by
  rw [bind_apply, h]

/-- A composed program succeeds exactly when both of its parts do, one after the other. -/
theorem bind_ok_iff {p : CursorM ε α β} {f : β → CursorM ε α γ} {c c' : Cursor α} {w : γ} :
    (p >>= f) c = .ok w c' ↔ ∃ v c₁, p c = .ok v c₁ ∧ f v c₁ = .ok w c' := by
  rw [bind_apply]
  constructor
  · intro h
    cases hp : p c with
    | ok v c₁ => exact ⟨v, c₁, rfl, by rwa [hp] at h⟩
    | error e c₁ => rw [hp] at h; cases h
  · rintro ⟨v, c₁, hp, hf⟩
    rw [hp]
    exact hf

/-- Run a reader a fixed number of times. -/
def readMany (p : CursorM ε α β) : ℕ → CursorM ε α (List β)
  | 0 => pure []
  | n + 1 => do
    let v ← p
    let vs ← readMany p n
    pure (v :: vs)

/-- Every value a repeated reader returns was returned by the reader. -/
theorem readMany_forall {p : CursorM ε α β} {P : β → Prop}
    (hp : ∀ c v c', p c = .ok v c' → P v) :
    ∀ {n : ℕ} {c c' : Cursor α} {vs : List β}, readMany p n c = .ok vs c' → ∀ v ∈ vs, P v := by
  intro n
  induction n with
  | zero =>
    intro c c' vs h v hv
    cases h
    cases hv
  | succ n ih =>
    intro c c' vs h v hv
    obtain ⟨v₁, c₁, h₁, h⟩ := bind_ok_iff.mp h
    obtain ⟨vs₁, c₂, h₂, h⟩ := bind_ok_iff.mp h
    cases h
    rcases List.mem_cons.mp hv with rfl | hv
    · exact hp _ _ _ h₁
    · exact ih h₂ v hv

theorem readMany_length {p : CursorM ε α β} :
    ∀ {n : ℕ} {c c' : Cursor α} {vs : List β}, readMany p n c = .ok vs c' → vs.length = n := by
  intro n
  induction n with
  | zero =>
    intro c c' vs h
    cases h
    rfl
  | succ n ih =>
    intro c c' vs h
    obtain ⟨v₁, c₁, h₁, h⟩ := bind_ok_iff.mp h
    obtain ⟨vs₁, c₂, h₂, h⟩ := bind_ok_iff.mp h
    cases h
    rw [List.length_cons, ih h₂]

/-- A successful run of `p` leaves the buffer alone and moves the cursor `n` places on. -/
def Advances (p : CursorM ε α β) (n : ℕ) : Prop :=
  ∀ c v c', p c = .ok v c' → c' = ⟨c.buf, c.pos + n⟩

namespace Advances

theorem pure (v : β) : Advances (Pure.pure v : CursorM ε α β) 0 := by
  rintro c v' c' h
  cases h
  rfl

theorem bind {p : CursorM ε α β} {f : β → CursorM ε α γ} {n m : ℕ} (hp : Advances p n)
    (hf : ∀ v, Advances (f v) m) : Advances (p >>= f) (n + m) := by
  intro c w c' h
  obtain ⟨v, c₁, h₁, h₂⟩ := bind_ok_iff.mp h
  rw [hf v c₁ w c' h₂, hp c v c₁ h₁, Nat.add_assoc]

end Advances

/-! ### Repeated readers by position -/

/-- Runs one after the other are one longer run. -/
theorem readMany_append_iff {p : CursorM ε α β} {m n : ℕ} {c c' : Cursor α} {vs ws : List β}
    (hlen : vs.length = m) : readMany p (m + n) c = .ok (vs ++ ws) c' ↔
      ∃ c₁, readMany p m c = .ok vs c₁ ∧ readMany p n c₁ = .ok ws c' := by
  induction m generalizing c vs with
  | zero =>
    rw [List.length_eq_zero_iff.mp hlen, Nat.zero_add, List.nil_append]
    refine ⟨fun h => ⟨c, rfl, h⟩, ?_⟩
    rintro ⟨c₁, hnil, h⟩
    cases hnil
    exact h
  | succ m ih =>
    obtain ⟨v, vs, rfl⟩ := List.exists_cons_of_length_eq_add_one hlen
    have hlen' : vs.length = m := Nat.succ.inj hlen
    rw [Nat.succ_add, List.cons_append]
    constructor
    · intro h
      obtain ⟨v₁, c₁, h₁, h⟩ := bind_ok_iff.mp h
      obtain ⟨vs₁, c₂, h₂, h⟩ := bind_ok_iff.mp h
      cases h
      obtain ⟨c₃, h₃, h₄⟩ := (ih hlen').mp h₂
      exact ⟨c₃, bind_ok_iff.mpr ⟨v, c₁, h₁, bind_ok_iff.mpr ⟨vs, c₃, h₃, rfl⟩⟩, h₄⟩
    · rintro ⟨c₃, h, h₄⟩
      obtain ⟨v₁, c₁, h₁, h⟩ := bind_ok_iff.mp h
      obtain ⟨vs₁, c₂, h₂, h⟩ := bind_ok_iff.mp h
      cases h
      exact bind_ok_iff.mpr ⟨v, c₁, h₁,
        bind_ok_iff.mpr ⟨vs ++ ws, c', (ih hlen').mpr ⟨c₃, h₂, h₄⟩, rfl⟩⟩

/-- Every successful run over `buf` ends where `next` says. -/
def EndsAt (p : CursorM ε α β) (buf : List α) (next : ℕ → ℕ) : Prop :=
  ∀ pos v c', p ⟨buf, pos⟩ = .ok v c' → c' = ⟨buf, next pos⟩

/-- The runs of a repeated reader start at the iterates of `next`. -/
theorem EndsAt.readMany {p : CursorM ε α β} {buf : List α} {next : ℕ → ℕ}
    (hp : EndsAt p buf next) {n pos : ℕ} {vs : List β} {c' : Cursor α}
    (h : readMany p n ⟨buf, pos⟩ = .ok vs c') :
    c' = ⟨buf, next^[n] pos⟩ ∧ vs.length = n ∧ ∀ i (hi : i < vs.length),
      p ⟨buf, next^[i] pos⟩ = .ok vs[i] ⟨buf, next^[i + 1] pos⟩ := by
  induction n generalizing pos vs with
  | zero =>
    cases h
    exact ⟨rfl, rfl, fun i hi => absurd hi (Nat.not_lt_zero i)⟩
  | succ n ih =>
    obtain ⟨v₁, c₁, h₁, h⟩ := bind_ok_iff.mp h
    obtain ⟨vs₁, c₂, h₂, h⟩ := bind_ok_iff.mp h
    cases h
    obtain rfl := hp _ _ _ h₁
    obtain ⟨rfl, hlen, hruns⟩ := ih h₂
    refine ⟨rfl, congrArg Nat.succ hlen, ?_⟩
    rintro (_ | i) hi
    · exact h₁
    · exact hruns i (Nat.lt_of_succ_lt_succ hi)

/-! ### The same run over another buffer -/

/-- A successful run from `pos` over `buf` leaves the buffer alone, and goes the same way over
`buf'`. -/
def Carries (p : CursorM ε α β) (buf buf' : List α) (pos : ℕ) : Prop :=
  ∀ v c', p ⟨buf, pos⟩ = .ok v c' → c'.buf = buf ∧ p ⟨buf', pos⟩ = .ok v ⟨buf', c'.pos⟩

namespace Carries

variable {p : CursorM ε α β} {f : β → CursorM ε α γ} {buf buf' : List α} {pos : ℕ}

theorem pure (v : β) : Carries (Pure.pure v : CursorM ε α β) buf buf' pos := by
  rintro v' c' h
  cases h
  exact ⟨rfl, rfl⟩

theorem bind (hp : Carries p buf buf' pos)
    (hf : ∀ v pos', p ⟨buf, pos⟩ = .ok v ⟨buf, pos'⟩ → Carries (f v) buf buf' pos') :
    Carries (p >>= f) buf buf' pos := by
  intro w c' h
  obtain ⟨v, ⟨buf₁, pos₁⟩, h₁, h₂⟩ := bind_ok_iff.mp h
  obtain ⟨rfl, h₁'⟩ := hp v _ h₁
  obtain ⟨hbuf, h₂'⟩ := hf v pos₁ h₁ w c' h₂
  exact ⟨hbuf, by rw [bind_of_ok h₁', h₂']⟩

theorem readMany {next : ℕ → ℕ} (hnext : EndsAt p buf next) {n : ℕ}
    (hp : ∀ i < n, Carries p buf buf' (next^[i] pos)) :
    Carries (CursorM.readMany p n) buf buf' pos := by
  induction n generalizing pos with
  | zero => exact .pure []
  | succ n ih =>
    refine (hp 0 (Nat.succ_pos n)).bind fun v pos' h => ?_
    obtain rfl := (Cursor.mk.inj (hnext _ _ _ h)).2
    exact (ih fun i hi => hp (i + 1) (Nat.succ_lt_succ hi)).bind fun vs _ _ => .pure _

end Carries

/-- `buf'` has what `buf` has at the places in `K`. -/
def Keeps (K : ℕ → Prop) (buf buf' : List α) : Prop :=
  ∀ i b, K i → buf[i]? = some b → buf'[i]? = some b

/-- A reader of `n` places in a row. -/
structure Fixed (p : CursorM ε α β) (n : ℕ) : Prop where
  advances : Advances p n
  inside : ∀ c v c', p c = .ok v c' → ∀ i < n, c.pos + i < c.buf.length
  carries : ∀ K buf buf' pos, Keeps K buf buf' → (∀ i < n, K (pos + i)) → Carries p buf buf' pos

namespace Fixed

variable {p : CursorM ε α β} {f : β → CursorM ε α γ} {n m : ℕ}

theorem pure (v : β) : Fixed (Pure.pure v : CursorM ε α β) 0 where
  advances := .pure v
  inside := fun _ _ _ _ i hi => absurd hi (Nat.not_lt_zero i)
  carries := fun _ _ _ _ _ _ => .pure v

/-- What follows a reader of fixed length starts at its end. -/
theorem carries_bind {K : ℕ → Prop} {buf buf' : List α} {pos : ℕ} (hp : Fixed p n)
    (hkeep : Keeps K buf buf') (hK : ∀ i < n, K (pos + i))
    (hf : ∀ v c, p ⟨buf, pos⟩ = .ok v c → Carries (f v) buf buf' (pos + n)) :
    Carries (p >>= f) buf buf' pos := by
  apply (hp.carries K buf buf' pos hkeep hK).bind
  intro v pos' h
  obtain rfl := (Cursor.mk.inj (hp.advances _ _ _ h)).2
  exact hf v _ h

theorem bind (hp : Fixed p n) (hf : ∀ v, Fixed (f v) m) : Fixed (p >>= f) (n + m) where
  advances := hp.advances.bind fun v => (hf v).advances
  inside := by
    intro c w c' h i hi
    obtain ⟨v, c₁, h₁, h₂⟩ := bind_ok_iff.mp h
    have hfirst := hp.inside c v c₁ h₁
    have hsecond := (hf v).inside c₁ w c' h₂
    rw [hp.advances c v c₁ h₁] at hsecond
    rcases Nat.lt_or_ge i n with hlt | hge
    · exact hfirst i hlt
    · have := hsecond (i - n) (by omega)
      dsimp only at this
      omega
  carries := by
    intro K buf buf' pos hkeep hK
    refine hp.carries_bind hkeep (fun i hi => hK i (by omega)) fun v c h => ?_
    refine (hf v).carries K buf buf' _ hkeep fun i hi => ?_
    rw [Nat.add_assoc]
    exact hK _ (by omega)

end Fixed

/-- `p` reads the encoding `enc` as `v`, whatever stands before and after it, and leaves the
cursor at its end. -/
def Decodes (p : CursorM ε α β) (enc : List α) (v : β) : Prop :=
  ∀ before after : List α,
    p ⟨before ++ enc ++ after, before.length⟩ =
      .ok v ⟨before ++ enc ++ after, before.length + enc.length⟩

namespace Decodes

variable {p : CursorM ε α β} {f : β → CursorM ε α γ} {enc enc' : List α} {v : β} {w : γ}

theorem pure (v : β) : Decodes (Pure.pure v : CursorM ε α β) [] v := fun _ _ => rfl

theorem bind (hp : Decodes p enc v) (hf : Decodes (f v) enc' w) :
    Decodes (p >>= f) (enc ++ enc') w := by
  intro before after
  have h₁ := hp before (enc' ++ after)
  have h₂ := hf (before ++ enc) after
  simp only [List.append_assoc, List.length_append] at h₁ h₂ ⊢
  rw [bind_of_ok h₁, h₂, Nat.add_assoc]

/-- The last step of a reader that only rearranges what was read. -/
theorem bind_pure {g : β → γ} (hp : Decodes p enc v) :
    Decodes (p >>= fun x => Pure.pure (g x)) enc (g v) := by
  have h := hp.bind (f := fun x => Pure.pure (g x)) (Decodes.pure (g v))
  rwa [List.append_nil] at h

/-- One encoding after the other is read as the values in that order. -/
theorem readMany_map {δ : Type} {encode : δ → List α} {g : δ → β} (l : List δ)
    (h : ∀ x ∈ l, Decodes p (encode x) (g x)) :
    Decodes (CursorM.readMany p l.length) (l.flatMap encode) (l.map g) := by
  induction l with
  | nil => exact Decodes.pure []
  | cons x l ih =>
    rw [List.flatMap_cons]
    exact (h x List.mem_cons_self).bind
      (ih fun y hy => h y (List.mem_cons_of_mem x hy)).bind_pure

theorem readMany {encode : β → List α} (l : List β) (h : ∀ x ∈ l, Decodes p (encode x) x) :
    Decodes (CursorM.readMany p l.length) (l.flatMap encode) l := by
  have hmap := readMany_map (g := id) l h
  rwa [List.map_id] at hmap

/-- Reading a buffer that holds the encoding and nothing else consumes all of it. -/
theorem of_list (h : Decodes p enc v) :
    p (Cursor.ofList enc) = .ok v ⟨enc, enc.length⟩ := by
  simpa [Cursor.ofList] using h [] []

end Decodes

/-- `w` succeeds and writes `enc` at the cursor; bytes beyond what it writes stay. -/
def Emits (w : CursorM ε α β) (enc : List α) : Prop :=
  ∀ c : Cursor α, c.pos ≤ c.buf.length → ∃ r c', w c = .ok r c' ∧
    c'.written = c.written ++ enc ∧ c'.pos = c.pos + enc.length ∧ c'.pos ≤ c'.buf.length ∧
    c'.buf.drop c'.pos = c.buf.drop c'.pos

namespace Emits

variable {w : CursorM ε α β} {f : β → CursorM ε α γ} {enc enc' : List α}

theorem pure (r : β) : Emits (Pure.pure r : CursorM ε α β) [] :=
  fun c hc => ⟨r, c, rfl, by simp, by simp, hc, rfl⟩

theorem bind (hw : Emits w enc) (hf : ∀ r, Emits (f r) enc') : Emits (w >>= f) (enc ++ enc') := by
  intro c hc
  obtain ⟨r₁, c₁, h₁, hwr₁, hpos₁, hle₁, htail₁⟩ := hw c hc
  obtain ⟨r₂, c₂, h₂, hwr₂, hpos₂, hle₂, htail₂⟩ := hf r₁ c₁ hle₁
  refine ⟨r₂, c₂, by rw [bind_of_ok h₁, h₂], ?_, ?_, hle₂, ?_⟩
  · rw [hwr₂, hwr₁, List.append_assoc]
  · rw [hpos₂, hpos₁, List.length_append, Nat.add_assoc]
  · -- the second writer's tail lies inside the first one's
    have hdrop := congrArg (List.drop enc'.length) htail₁
    rw [List.drop_drop, List.drop_drop, ← hpos₂] at hdrop
    rw [htail₂, hdrop]

/-- A writer whose answer is read off the cursor. -/
theorem bind_left {v : CursorM ε α β} (hv : ∀ c, ∃ r, v c = .ok r c)
    (hf : ∀ r, Emits (f r) enc) : Emits (v >>= f) enc := by
  intro c hc
  obtain ⟨r, hr⟩ := hv c
  rw [bind_of_ok hr]
  exact hf r c hc

theorem forM {encode : β → List α} {write : β → CursorM ε α PUnit} (l : List β)
    (h : ∀ x ∈ l, Emits (write x) (encode x)) : Emits (forM l write) (l.flatMap encode) := by
  induction l with
  | nil => exact Emits.pure _
  | cons x l ih =>
    rw [List.flatMap_cons, List.forM_cons]
    exact (h x List.mem_cons_self).bind fun _ => ih fun y hy => h y (List.mem_cons_of_mem x hy)

/-- A writer started on a buffer with nothing written leaves exactly the encoding. -/
theorem of_start (h : Emits w enc) (buf : List α) :
    ∃ r c', w ⟨buf, 0⟩ = .ok r c' ∧ c'.written = enc := by
  obtain ⟨r, c', hr, hw, -⟩ := h ⟨buf, 0⟩ (Nat.zero_le _)
  exact ⟨r, c', hr, by simpa [Cursor.written] using hw⟩

end Emits

/-- `w` fails wherever it starts to write. -/
def Refuses (w : CursorM ε α β) : Prop :=
  ∀ c : Cursor α, c.pos ≤ c.buf.length → ∃ e c', w c = .error e c'

namespace Refuses

variable {w : CursorM ε α β} {f : β → CursorM ε α γ} {enc : List α}

theorem bind_right (hw : Refuses w) : Refuses (w >>= f) := by
  intro c hc
  obtain ⟨e, c', h⟩ := hw c hc
  exact ⟨e, c', by rw [bind_apply, h]⟩

theorem bind_left (hw : Emits w enc) (hf : ∀ r, Refuses (f r)) : Refuses (w >>= f) := by
  intro c hc
  obtain ⟨r, c₁, h₁, -, -, hle, -⟩ := hw c hc
  obtain ⟨e, c', h⟩ := hf r c₁ hle
  exact ⟨e, c', by rw [bind_of_ok h₁, h]⟩

/-- A row of writers fails when one of them does. -/
theorem forM {encode : β → List α} {write : β → CursorM ε α PUnit} {l : List β}
    (h : ∀ x ∈ l, Emits (write x) (encode x) ∨ Refuses (write x))
    (hbad : ∃ x ∈ l, Refuses (write x)) : Refuses (forM l write) := by
  induction l with
  | nil => simp at hbad
  | cons x l ih =>
    rw [List.forM_cons]
    obtain ⟨hx, hl⟩ := List.forall_mem_cons.mp h
    rcases hx with hemits | hrefuses
    · refine bind_left hemits fun _ => ?_
      rcases List.exists_mem_cons_iff _ _ _ |>.mp hbad with hx | hrest
      · obtain ⟨r, c', hok, -⟩ := hemits (Cursor.ofList []) (Nat.le_refl _)
        obtain ⟨e, c'', herr⟩ := hx (Cursor.ofList []) (Nat.le_refl _)
        rw [hok] at herr
        cases herr
      · exact ih hl hrest
    · exact hrefuses.bind_right

end Refuses

end CursorM

end Lib
