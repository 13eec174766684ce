import Brdns.Proofs.InForce

/-! A journal beside a run: the lists that the management API accepted, as they were sent and as they
were answered. The store has what the journal says, since the last start where none of it is kept
over a restart. -/

namespace Brdns

open Lib

structure Journal where
  sent : Book NewRule NewUpstream
  kept : Shelves

namespace Journal

def opened (shelves : Shelves) : Journal := ⟨shelves.submitted, shelves⟩

def after {ω : Type} (self : Journal) (durable : Bool) : Input ω → Reaction → Journal
  | .api req, .api response => ⟨self.sent.answered req response, self.kept.answered req response⟩
  | .restart _, .started _ _ => if durable then self else opened .empty
  | _, _ => self

end Journal

section

variable {σ ω : Type} {store : Store σ ω} {setup : Setup} {Good : σ → Prop}
  {Fits : List NewRule → Prop} {durable : Bool} {journal : Journal} {s : Runtime σ}

variable (store Good) in
/-- The store has what the journal says. -/
structure Booked (journal : Journal) (cp : σ) : Prop where
  good : Good cp
  kept : store.shelves cp = journal.kept
  sent : journal.kept.submitted = journal.sent

theorem Booked.frame {cp cp' : σ} (h : Booked store Good journal cp)
    (hkept : Good cp' ∧ store.shelves cp' = store.shelves cp) : Booked store Good journal cp' :=
  ⟨hkept.1, hkept.2.trans h.kept, h.sent⟩

theorem Booked.answered {cp cp' : σ} {req : Http.Request} {response : CplResult Http.Response}
    (h : Booked store Good journal cp) (hgood : Good cp')
    (hanswered : Answered (store.shelves cp) req response (store.shelves cp')) :
    Booked store Good ⟨journal.sent.answered req response, journal.kept.answered req response⟩ cp' := by
  have hbook := hanswered.book
  rw [hanswered.shelves, h.kept, h.sent] at hbook
  exact ⟨hgood, h.kept ▸ hanswered.shelves, hbook⟩

theorem start_kept (hstore : store.KeepsShelves Good Fits durable) (setup : Setup) {cp : σ}
    (hgood : Good cp) (boot : Boot ω) : Good (Runtime.start store setup cp boot).2.cp ∧
      store.shelves (Runtime.start store setup cp boot).2.cp = store.shelves cp := by
  unfold Runtime.start
  dsimp only
  split_ifs
  · exact hstore.ingest hgood _ _ _ _
  · exact ⟨hgood, rfl⟩

variable [Text.UnicodeTables]

theorem step_booked (hstore : store.KeepsShelves Good Fits durable)
    (h : Booked store Good journal s.cp) {i : Input ω} (hfits : i.Fits Fits) :
    Booked store Good (journal.after durable i (s.step store setup i).1)
      (s.step store setup i).2.cp := by
  have hrun : StepRun store setup s i (s.step store setup i) := step_run i
  generalize s.step store setup i = r at hrun ⊢
  cases hrun with
  | api req =>
    obtain ⟨hgood, hanswered⟩ := hstore.handle h.good hfits
    exact h.answered hgood hanswered
  | obtained n => exact h.frame (hstore.createAccount s.cp n h.good)
  | @admitted task query cached id n now window cp hflight hquota
  | @exceeded task query cached id n now window cp hflight hquota
  | @failed task query cached id n now window cp e hflight hquota =>
    have hkept := hstore.recordQuota s.cp query.account id n window now h.good
    rw [hquota] at hkept
    exact h.frame hkept
  | @installed snapshot now hpoll =>
    unfold Runtime.install
    simp only [hpoll]
    exact h
  | ingested net world now hpoll =>
    unfold Runtime.ingest
    simp only [hpoll]
    exact h.frame (hstore.ingest h.good _ _ _ _)
  | restarted boot =>
    obtain ⟨hgood, hshelves⟩ := hstore.connect s.cp h.good
    obtain ⟨hgood', hshelves'⟩ := start_kept hstore setup hgood boot
    obtain ⟨accounts, ingested, hstarted⟩ :=
      start_reaction store setup (store.connect s.cp) boot
    rw [hstarted]
    refine ⟨hgood', ?_, ?_⟩
    · rw [hshelves', hshelves, h.kept]
      cases durable <;> rfl
    · cases durable
      · rfl
      · exact h.sent
  | idle => cases i <;> exact h
  | unparsed harrives | denied harrives | asked harrives | allowed harrives =>
    cases harrives <;> exact h
  | _ => exact h

variable (store setup) in
def Runtime.booked (durable : Bool) : Machine (Runtime σ × Journal) (Input ω) Reaction :=
  (Runtime.machine store setup).observe fun journal _ i reaction => journal.after durable i reaction

variable (store setup) in
def Runtime.bookedStart (cp : σ) (boot : Boot ω) : Runtime σ × Journal :=
  ((Runtime.start store setup cp boot).2, .opened (store.shelves cp))

variable (setup) in
theorem run_booked (hstore : store.KeepsShelves Good Fits durable) {cp : σ} (hgood : Good cp)
    (boot : Boot ω) (is : List (Input ω)) (hfits : ∀ i ∈ is, i.Fits Fits) :
    Booked store Good
      ((Runtime.booked store setup durable).exec (Runtime.bookedStart store setup cp boot) is).2
      ((Runtime.booked store setup durable).exec (Runtime.bookedStart store setup cp boot) is).1.cp := by
  refine Machine.invariant _ (fun x : Runtime σ × Journal => Booked store Good x.2 x.1.cp)
    (Input.Fits Fits) (fun _ _ hi h => step_booked hstore h hi) is _ hfits ?_
  obtain ⟨hgood', hshelves⟩ := start_kept hstore setup hgood boot
  exact ⟨hgood', hshelves, rfl⟩

end

end Brdns
