import Brdns.Lib.Codec

/-! Readers over a cursor that keep a record of what they do. The record of a composed reader is
that of its parts one after the other; forgetting it leaves an ordinary reader. A monitor checks
the record event by event, knowing where the cursor is. -/

namespace Lib

def TracedM (ω ε α β : Type) := Cursor α → List ω × EStateM.Result ε (Cursor α) β

namespace TracedM

variable {ω ε α β γ : Type}

protected def pure (b : β) : TracedM ω ε α β := fun c => ([], .ok b c)

protected def bind (p : TracedM ω ε α β) (f : β → TracedM ω ε α γ) : TracedM ω ε α γ := fun c =>
  match p c with
  | (es, .ok b c') => (es ++ (f b c').1, (f b c').2)
  | (es, .error e c') => (es, .error e c')

instance : Monad (TracedM ω ε α) where
  pure := TracedM.pure
  bind := TracedM.bind

section

variable {p : TracedM ω ε α β} {f : β → TracedM ω ε α γ} {c c' : Cursor α} {es : List ω}

theorem bind_of_ok {b : β} (h : p c = (es, .ok b c')) :
    (p >>= f) c = (es ++ (f b c').1, (f b c').2) := by
  change TracedM.bind p f c = _
  rw [TracedM.bind, h]

theorem bind_of_error {e : ε} (h : p c = (es, .error e c')) :
    (p >>= f) c = (es, .error e c') := by
  change TracedM.bind p f c = _
  rw [TracedM.bind, h]

end

/-- Do nothing but put an event on record. -/
def record (e : ω) : TracedM ω ε α Unit := fun c => ([e], .ok () c)

/-- The current position. -/
def position : TracedM ω ε α ℕ := fun c => ([], .ok c.pos c)

/-- Run a reader a fixed number of times. -/
def readMany (p : TracedM ω ε α β) : ℕ → TracedM ω ε α (List β)
  | 0 => pure []
  | n + 1 => do
    let v ← p
    let vs ← readMany p n
    pure (v :: vs)

/-! ### Forgetting the record -/

def erase (p : TracedM ω ε α β) : CursorM ε α β := fun c => (p c).2

theorem erase_bind (p : TracedM ω ε α β) (f : β → TracedM ω ε α γ) :
    (p >>= f).erase = p.erase >>= fun v => (f v).erase := by
  funext c
  rw [CursorM.bind_apply]
  unfold erase
  rcases hrun : p c with ⟨es, ⟨v, c'⟩ | ⟨e, c'⟩⟩
  · rw [bind_of_ok hrun]
  · rw [bind_of_error hrun]

@[simp] theorem erase_pure (b : β) : (pure b : TracedM ω ε α β).erase = pure b := rfl

theorem erase_readMany (p : TracedM ω ε α β) (n : ℕ) :
    (readMany p n).erase = CursorM.readMany p.erase n := by
  induction n with
  | zero => rfl
  | succ n ih =>
    rw [readMany, CursorM.readMany, erase_bind]
    congr 1
    funext v
    rw [erase_bind, ih]
    rfl

/-! ### Monitors -/

/-- What a monitor knows and asks: to which position an event moves the cursor, if it does, and
which events are safe at a position. -/
structure Monitor (ω : Type) where
  moves : ω → Option ℕ
  Safe : ℕ → ω → Prop

namespace Monitor

variable (m : Monitor ω)

/-- The position after a record that starts at `pos`. -/
def after (pos : ℕ) : List ω → ℕ
  | [] => pos
  | e :: es => after ((m.moves e).getD pos) es

/-- Every event is safe at the position it happens at. -/
def Accepts (pos : ℕ) : List ω → Prop
  | [] => True
  | e :: es => m.Safe pos e ∧ Accepts ((m.moves e).getD pos) es

theorem after_append (pos : ℕ) (es es' : List ω) :
    m.after pos (es ++ es') = m.after (m.after pos es) es' := by
  induction es generalizing pos with
  | nil => rfl
  | cons e es ih => exact ih _

theorem accepts_append {pos : ℕ} {es es' : List ω} :
    m.Accepts pos (es ++ es') ↔ m.Accepts pos es ∧ m.Accepts (m.after pos es) es' := by
  induction es generalizing pos with
  | nil => simp [Accepts, after]
  | cons e es ih => simp only [List.cons_append, Accepts, after, ih, and_assoc]

theorem accepts_of_prefix {pos : ℕ} {es es' : List ω} (h : es <+: es') (hes : m.Accepts pos es') :
    m.Accepts pos es := by
  obtain ⟨rest, rfl⟩ := h
  exact (m.accepts_append.mp hes).1

theorem after_of_still {pos : ℕ} {es : List ω} (h : ∀ e ∈ es, m.moves e = none) :
    m.after pos es = pos := by
  induction es with
  | nil => rfl
  | cons e es ih =>
    rw [after, h e List.mem_cons_self]
    exact ih fun e' he' => h e' (List.mem_cons_of_mem _ he')

/-- Where a record ends is where its last move went. -/
theorem still_or_last_move (pos : ℕ) (es : List ω) :
    (∀ e ∈ es, m.moves e = none) ∨
      ∃ front e tail, es = front ++ e :: tail ∧ m.moves e = some (m.after pos es) ∧
        ∀ e' ∈ tail, m.moves e' = none := by
  induction es generalizing pos with
  | nil => exact .inl (by simp)
  | cons e es ih =>
    rcases ih ((m.moves e).getD pos) with hstill | ⟨front, e', tail, hes, hmove, htail⟩
    · cases hmoves : m.moves e with
      | none => exact .inl (by simpa [hmoves] using hstill)
      | some p =>
        refine .inr ⟨[], e, es, rfl, ?_, hstill⟩
        rw [after, m.after_of_still hstill, hmoves, Option.getD_some]
    · exact .inr ⟨e :: front, e', tail, by rw [hes, List.cons_append], hmove, htail⟩

end Monitor

/-- Where a run ended, with a value or an error. -/
def endCursor : EStateM.Result ε (Cursor α) β → Cursor α
  | .ok _ c => c
  | .error _ c => c

/-- The record is accepted from `pos` on, accounts for every move of the cursor, and a value comes
with a cursor that has `Post`. -/
structure SafeRun (m : Monitor ω) (pos : ℕ) (run : List ω × EStateM.Result ε (Cursor α) β)
    (Post : Cursor α → Prop) : Prop where
  accepts : m.Accepts pos run.1
  ends : m.after pos run.1 = (endCursor run.2).pos
  post : ∀ v c, run.2 = .ok v c → Post c

namespace SafeRun

variable {m : Monitor ω} {pos : ℕ} {Mid Post : Cursor α → Prop}

theorem prepend {es : List ω} {run : List ω × EStateM.Result ε (Cursor α) β}
    (hes : m.Accepts pos es) (h : SafeRun m (m.after pos es) run Post) :
    SafeRun m pos (es ++ run.1, run.2) Post where
  accepts := m.accepts_append.mpr ⟨hes, h.accepts⟩
  ends := (m.after_append pos es run.1).trans h.ends
  post := h.post

/-- An event that leaves the cursor alone. -/
theorem still {e : ω} {run : List ω × EStateM.Result ε (Cursor α) β} (hstay : m.moves e = none)
    (hsafe : m.Safe pos e) (h : SafeRun m pos run Post) : SafeRun m pos (e :: run.1, run.2) Post := by
  have hone : m.Accepts pos [e] := ⟨hsafe, trivial⟩
  have hafter : m.after pos [e] = pos := by rw [Monitor.after, hstay]; rfl
  exact prepend hone (hafter.symm ▸ h)

theorem next {es : List ω} {b : β} {c : Cursor α} {run : List ω × EStateM.Result ε (Cursor α) γ}
    (h : SafeRun m pos (es, (.ok b c : EStateM.Result ε _ _)) Mid)
    (hnext : SafeRun m c.pos run Post) :
    SafeRun m pos (es ++ run.1, run.2) Post := by
  have hend : m.after pos es = c.pos := h.ends
  exact prepend h.accepts (hend.symm ▸ hnext)

/-- An error ends the run whatever was to be returned. -/
theorem fail {es : List ω} {e : ε} {c : Cursor α}
    (h : SafeRun m pos (es, (.error e c : EStateM.Result ε _ β)) Mid) :
    SafeRun m pos (es, (.error e c : EStateM.Result ε _ γ)) Post :=
  ⟨h.accepts, h.ends, fun _ _ herr => by cases herr⟩

end SafeRun

/-- Every run from a cursor with `Pre` is safe. -/
def Safely (m : Monitor ω) (Pre : Cursor α → Prop) (p : TracedM ω ε α β)
    (Post : Cursor α → Prop) : Prop :=
  ∀ c, Pre c → SafeRun m c.pos (p c) Post

namespace Safely

variable {m : Monitor ω} {Pre Mid Post : Cursor α → Prop} {p : TracedM ω ε α β}
  {f : β → TracedM ω ε α γ}

theorem pure (b : β) : Safely m Pre (Pure.pure b : TracedM ω ε α β) Pre := by
  intro c hc
  refine ⟨trivial, rfl, fun v c' h => ?_⟩
  cases h
  exact hc

theorem bind (hp : Safely m Pre p Mid) (hf : ∀ v, Safely m Mid (f v) Post) :
    Safely m Pre (p >>= f) Post := by
  intro c hc
  have hrun := hp c hc
  rcases hpc : p c with ⟨es, ⟨v, c'⟩ | ⟨e, c'⟩⟩
  · rw [hpc] at hrun
    rw [bind_of_ok hpc]
    exact hrun.next (hf v c' (hrun.post v c' rfl))
  · rw [hpc] at hrun
    rw [bind_of_error hpc]
    exact hrun.fail

theorem mono {Pre' Post' : Cursor α → Prop} (h : Safely m Pre p Post)
    (hpre : ∀ c, Pre' c → Pre c) (hpost : ∀ c, Post c → Post' c) : Safely m Pre' p Post' := by
  intro c hc
  have hrun := h c (hpre c hc)
  exact ⟨hrun.accepts, hrun.ends, fun v c' hv => hpost c' (hrun.post v c' hv)⟩

theorem readMany (h : Safely m Pre p Pre) (n : ℕ) : Safely m Pre (TracedM.readMany p n) Pre := by
  induction n with
  | zero => exact Safely.pure []
  | succ n ih => exact h.bind fun v => ih.bind fun vs => Safely.pure (v :: vs)

theorem record {e : ω} (hstay : m.moves e = none) (hsafe : ∀ c, Pre c → m.Safe c.pos e) :
    Safely m Pre (TracedM.record e : TracedM ω ε α Unit) Pre :=
  fun c hc => (Safely.pure () c hc).still hstay (hsafe c hc)

/-- What follows a look at the position may rely on it. -/
theorem position_bind {f : ℕ → TracedM ω ε α β}
    (h : ∀ pos, Safely m (fun c => Pre c ∧ c.pos = pos) (f pos) Post) :
    Safely m Pre (TracedM.position >>= f) Post :=
  fun c hc => h c.pos c ⟨hc, rfl⟩

end Safely

end TracedM

end Lib
