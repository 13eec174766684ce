import Brdns.Proofs.Interleaving
import Brdns.Spec.Admin

/-! Concurrent `rules add` commands. Each stores the list it fetched with its rule at the end, so an
addition made between its two requests is lost; nothing else is. -/

namespace Brdns

open Lib

/-! ### Rules through JSON -/

theorem Action.fromStr_asStr (a : Action) : Action.fromStr a.asStr = .ok a := by
  cases a <;> rfl

theorem TargetType.fromStr_asStr (t : TargetType) : TargetType.fromStr t.asStr = .ok t := by
  cases t <;> rfl

theorem Window.fromStr_asStr (w : Window) : Window.fromStr w.asStr = .ok w := by
  cases w <;> rfl

/-- An optional value is null or its own JSON, which is then never null. -/
theorem Json.asOption_ofOption {α : Type} (read : Json → Option α) (write : α → Json)
    (hread : ∀ a, read (write a) = some a) (hnull : read .null = none) (v : Option α) :
    asOption read (ofOption (v.map write)) = some v := by
  rcases v with _ | a
  · rfl
  · have hne : write a ≠ .null := by
      intro h
      have hsome := hread a
      rw [h, hnull] at hsome
      cases hsome
    unfold ofOption asOption
    simp only [Option.map_some, Option.getD_some]
    rw [hread]
    rfl

/-- The values that a limit has over the wire. -/
def NewRule.LimitFits (self : NewRule) : Prop := ∀ c ∈ self.limitCount, Json.IsI64 c

instance (new : NewRule) : Decidable new.LimitFits := Option.decidableForallMem _

theorem Json.asOption_asInt (v : Option ℤ) : asOption asInt (ofOption (v.map .number)) =
    if ∀ c ∈ v, IsI64 c then some v else none := by
  rcases v with _ | c
  · simp [ofOption, asOption]
  · by_cases hc : IsI64 c <;> simp [ofOption, asOption, asInt, hc]

/-- An object with the six fields of a new rule reads back as the rule, if its limit fits. -/
theorem NewRule.ofFields_eq {fields : List (String × Json)} (new : NewRule)
    (haction : fields.lookup "action" = some (.string new.action.asStr))
    (htype : fields.lookup "target_type" = some (.string new.targetType.asStr))
    (hvalue : fields.lookup "target_value" = some (.string new.targetValue))
    (hcount : fields.lookup "limit_count" = some (.ofOption (new.limitCount.map .number)))
    (hwindow : fields.lookup "limit_window" =
      some (.ofOption (new.limitWindow.map fun w => .string w.asStr)))
    (henabled : fields.lookup "enabled" = some (.bool new.enabled)) :
    ofFields fields = if new.LimitFits then some new else none := by
  have hread (w : Window) : Json.asVariant Window.fromStr (.string w.asStr) = some w := by
    simp only [Json.asVariant, Window.fromStr_asStr, Except.toOption]
  have hlimit : Json.asOption Json.asInt (.ofOption (new.limitCount.map .number)) =
      if new.LimitFits then some new.limitCount else none := Json.asOption_asInt _
  have hlimitWindow := Json.asOption_ofOption (Json.asVariant Window.fromStr)
    (fun w : Window => .string w.asStr) hread rfl new.limitWindow
  unfold ofFields
  rw [haction, htype, hvalue, hcount, hwindow, henabled]
  simp only [Option.bind_eq_bind, Option.bind_some, Json.asVariant, Action.fromStr_asStr,
    TargetType.fromStr_asStr, Except.toOption, Json.asText, Json.asBool, Json.ofOption,
    Option.getD_some]
  unfold Json.ofOption at hlimit hlimitWindow
  rw [hlimit]
  split_ifs
  · rw [Option.bind_some, hlimitWindow]
    rfl
  · rfl

namespace Admin

def ActionArg.action : ActionArg → Action
  | Allow => .Allow
  | Deny => .Deny
  | Limit => .Limit

def TargetArg.targetType : TargetArg → TargetType
  | Domain => .Domain
  | Wildcard => .Wildcard
  | Category => .Category

def WindowArg.window : WindowArg → Window
  | Hour => .Hour
  | Day => .Day
  | Week => .Week
  | Month => .Month

def Add.submitted (self : Add) : NewRule :=
  ⟨self.action.action, self.target.targetType, self.value, self.limit,
    self.window.map WindowArg.window, true⟩

theorem ActionArg.literal (a : ActionArg) : a.toString.toList = a.action.asStr := by
  cases a <;> rfl

theorem TargetArg.literal (t : TargetArg) : t.toString.toList = t.targetType.asStr := by
  cases t <;> rfl

theorem WindowArg.literal (w : WindowArg) : w.toString.toList = w.window.asStr := by
  cases w <;> rfl

theorem ofJson_resubmit (r : Rule) : NewRule.ofJson (Add.resubmit r.toJson) =
    if r.submitted.LimitFits then some r.submitted else none := by
  apply NewRule.ofFields_eq r.submitted <;> rfl

theorem ofJson_rule (add : Add) : NewRule.ofJson add.rule =
    if add.submitted.LimitFits then some add.submitted else none := by
  apply NewRule.ofFields_eq add.submitted
  · exact congrArg (fun s => some (Json.string s)) add.action.literal
  · exact congrArg (fun s => some (Json.string s)) add.target.literal
  · rfl
  · rfl
  · have hwindow : (add.window.map fun w => Json.string w.toString.toList) =
        add.submitted.limitWindow.map fun w => .string w.asStr := by
      simp only [WindowArg.literal, Add.submitted, Option.map_map, Function.comp_def]
    exact congrArg (fun v => some (Json.ofOption v)) hwindow
  · rfl

/-! ### One request -/

section

variable (reject : Json → String)

theorem mapM_rules (add : Add) (rules : List Rule) {news : List NewRule}
    (h : ((rules.map Rule.toJson).map Add.resubmit ++ [add.rule]).mapM NewRule.ofJson = some news) :
    news = rules.map Rule.submitted ++ [add.submitted] := by
  induction rules generalizing news with
  | nil =>
    simp only [List.map_nil, List.nil_append, List.mapM_cons, List.mapM_nil, ofJson_rule] at h
    split_ifs at h
    · cases h
      rfl
    · cases h
  | cons r rules ih =>
    simp only [List.map_cons, List.cons_append, List.mapM_cons, ofJson_resubmit,
      Option.bind_eq_bind] at h
    split_ifs at h
    · rw [Option.bind_some] at h
      obtain ⟨rest, hrest, heq⟩ := Option.bind_eq_some_iff.mp h
      cases heq
      rw [ih hrest]
      rfl
    · cases h

/-- What is extracted of a list that is sent back. Nothing is of one that is too long or has a limit
that does not fit. -/
theorem extract_rules (add : Add) (rules : List Rule) :
    extract reject (add.rules (rules.map Rule.toJson)) =
        .ok (rules.map Rule.submitted ++ [add.submitted]) ∨
      ∃ status message, 300 ≤ status ∧
        extract reject (add.rules (rules.map Rule.toJson)) = .error (Http.err status message) := by
  unfold extract extractJson
  split_ifs
  · exact .inr ⟨413, _, by decide, rfl⟩
  · cases hread : Json.asList NewRule.ofJson (add.rules (rules.map Rule.toJson)) with
    | none => exact .inr ⟨422, _, by decide, rfl⟩
    | some news => exact .inl (congrArg Except.ok (mapM_rules add rules hread))

theorem step_fetch (s : State InMemControlPlane) (add : Add) :
    step InMemControlPlane.managementStore reject s (.fetch add) =
      (true, ⟨s.store, s.waiting ++ [⟨add, (s.store.rules add.account).map Rule.toJson⟩]⟩) := rfl

theorem step_replace {s : State InMemControlPlane} {i : ℕ} {w : Waiting} {rules : List Rule}
    (hi : s.waiting[i]? = some w) (hw : w.current = rules.map Rule.toJson)
    (hok : (step InMemControlPlane.managementStore reject s (.replace i)).1 = true) :
    (step InMemControlPlane.managementStore reject s (.replace i)).2 =
      ⟨(s.store.replaceRules w.add.account (rules.map Rule.submitted ++ [w.add.submitted])).2,
        s.waiting.eraseIdx i⟩ := by
  simp only [step, hi, hw] at hok ⊢
  rcases extract_rules reject w.add rules with hnews | ⟨status, message, hstatus, hrejected⟩
  · simp only [hnews, Http.handle, Http.replaceRules] at hok ⊢
    split_ifs at hok ⊢
    · simp [request, Http.err] at hok
    · rfl
  · simp only [hrejected, Http.handle, request, Http.err] at hok
    rw [if_neg (by omega)] at hok
    cases hok

end

/-! ### Runs -/

abbrev Seen := State InMemControlPlane × Event

/-- The command whose second request this is, for the account. -/
def replacing (n : Text) (x : Seen) : Option Waiting :=
  match x.2 with
  | .fetch _ => none
  | .replace i => (x.1.waiting[i]?).filter fun w => w.add.account = n

/-- The rules added to an account, in the order of the second requests. -/
def added (n : Text) (h : List Seen) : List NewRule :=
  h.filterMap fun x => (replacing n x).map fun w => w.add.submitted

/-- A second request that comes while the stored list is still the one its command fetched. -/
def Fresh (n : Text) (x : Seen) : Prop :=
  ∀ w, replacing n x = some w → w.current = (x.1.store.rules n).map Rule.toJson

def Holds (initial added : List NewRule) (rules : List Rule) : Prop :=
  ∃ kept, kept.Sublist added ∧ rules.map Rule.submitted = initial ++ kept

theorem Holds.length_le {initial added : List NewRule} {rules : List Rule}
    (h : Holds initial added rules) : rules.length ≤ initial.length + added.length := by
  obtain ⟨kept, hkept, hrules⟩ := h
  have hlength := congrArg List.length hrules
  rw [List.length_map, List.length_append] at hlength
  have := hkept.length_le
  omega

theorem Holds.later {initial added : List NewRule} {rules : List Rule} (new : NewRule)
    (h : Holds initial added rules) : Holds initial (added ++ [new]) rules := by
  obtain ⟨kept, hkept, hrules⟩ := h
  exact ⟨kept, hkept.trans (List.sublist_append_left _ _), hrules⟩

theorem Holds.concat {initial added : List NewRule} {rules rules' : List Rule} {new : NewRule}
    (h : Holds initial added rules)
    (h' : rules'.map Rule.submitted = rules.map Rule.submitted ++ [new]) :
    Holds initial (added ++ [new]) rules' := by
  obtain ⟨kept, hkept, hrules⟩ := h
  refine ⟨kept ++ [new], hkept.append (List.Sublist.refl _), ?_⟩
  rw [h', hrules, List.append_assoc]

/-- A list as long as all rules added is the stored one, so a stale list is shorter, and so is
every list after it is stored. -/
structure Inv (n : Text) (initial : List NewRule) (h : List Seen) (s : State InMemControlPlane) :
    Prop where
  stored : Holds initial (added n h) (s.store.rules n)
  fetched : ∀ w ∈ s.waiting, ∃ rules, w.current = rules.map Rule.toJson ∧
    (w.add.account = n → Holds initial (added n h) rules ∧
      (rules.length = initial.length + (added n h).length → rules = s.store.rules n))
  fresh : (s.store.rules n).length = initial.length + (added n h).length ↔ ∀ x ∈ h, Fresh n x

theorem added_concat (n : Text) (h : List Seen) (x : Seen) :
    added n (h ++ [x]) = added n h ++ ((replacing n x).map fun w => w.add.submitted).toList := by
  unfold added
  rw [List.filterMap_append]
  cases hx : replacing n x <;> simp [hx]

theorem inv_fetch {n : Text} {initial : List NewRule} {h : List Seen}
    {s : State InMemControlPlane} (hinv : Inv n initial h s) (add : Add) :
    Inv n initial (h ++ [(s, .fetch add)])
      ⟨s.store, s.waiting ++ [⟨add, (s.store.rules add.account).map Rule.toJson⟩]⟩ := by
  have hadded : added n (h ++ [(s, .fetch add)]) = added n h := by
    rw [added_concat]
    exact List.append_nil _
  refine ⟨by rw [hadded]; exact hinv.stored, ?_, ?_⟩
  · intro w hw
    rw [hadded]
    rcases List.mem_append.mp hw with hw | hw
    · exact hinv.fetched w hw
    · rw [List.mem_singleton] at hw
      subst hw
      refine ⟨s.store.rules add.account, rfl, ?_⟩
      rintro rfl
      exact ⟨hinv.stored, fun _ => rfl⟩
  · rw [hadded, List.forall_mem_append, List.forall_mem_singleton]
    have hfresh : Fresh n (s, .fetch add) := by
      intro w hw
      cases hw
    rw [and_iff_left hfresh]
    exact hinv.fresh

/-- The stored list becomes the fetched one with the new rule, and the other lists fetched so far
are too short to hold every rule added. -/
theorem inv_replace_same {n : Text} {initial : List NewRule} {h : List Seen}
    {s : State InMemControlPlane} (hinv : Inv n initial h s) {i : ℕ} {w : Waiting}
    (hi : s.waiting[i]? = some w) (hn : w.add.account = n) {rules : List Rule}
    (hw : w.current = rules.map Rule.toJson) (hholds : Holds initial (added n h) rules)
    (hcomplete : rules.length = initial.length + (added n h).length → rules = s.store.rules n)
    {store : InMemControlPlane} (hstore : (store.rules n).map Rule.submitted =
      rules.map Rule.submitted ++ [w.add.submitted]) :
    Inv n initial (h ++ [(s, .replace i)]) ⟨store, s.waiting.eraseIdx i⟩ := by
  have hreplacing : replacing n (s, .replace i) = some w := by simp [replacing, hi, hn]
  have hadded : added n (h ++ [(s, .replace i)]) = added n h ++ [w.add.submitted] := by
    rw [added_concat, hreplacing]
    rfl
  have hcount : (added n (h ++ [(s, .replace i)])).length = (added n h).length + 1 := by
    rw [hadded, List.length_append, List.length_singleton]
  refine ⟨by rw [hadded]; exact hholds.concat hstore, ?_, ?_⟩
  · intro w' hw'
    obtain ⟨rules', hcurrent, hrules'⟩ := hinv.fetched w' (List.mem_of_mem_eraseIdx hw')
    refine ⟨rules', hcurrent, fun hn' => ?_⟩
    obtain ⟨hholds', -⟩ := hrules' hn'
    have hle := hholds'.length_le
    rw [hcount, hadded]
    exact ⟨hholds'.later _, fun hlength => by omega⟩
  · have hlength : (store.rules n).length = rules.length + 1 := by
      simpa using congrArg List.length hstore
    have hfresh : Fresh n (s, .replace i) ↔ w.current = (s.store.rules n).map Rule.toJson := by
      unfold Fresh
      simp only [hreplacing, Option.some.injEq, forall_eq']
    rw [List.forall_mem_append, List.forall_mem_singleton, hfresh, ← hinv.fresh, hcount, hlength]
    constructor
    · intro hfull
      have heq := hcomplete (by omega)
      rw [hw, ← heq]
      exact ⟨by omega, rfl⟩
    · rintro ⟨hfull, hcurrent⟩
      have hsame := congrArg List.length (hw.symm.trans hcurrent)
      rw [List.length_map, List.length_map] at hsame
      omega

theorem inv_replace_other {n : Text} {initial : List NewRule} {h : List Seen}
    {s : State InMemControlPlane} (hinv : Inv n initial h s) {i : ℕ} {w : Waiting}
    (hi : s.waiting[i]? = some w) (hn : w.add.account ≠ n) {store : InMemControlPlane}
    (hstore : store.rules n = s.store.rules n) :
    Inv n initial (h ++ [(s, .replace i)]) ⟨store, s.waiting.eraseIdx i⟩ := by
  have hreplacing : replacing n (s, .replace i) = none := by simp [replacing, hi, hn]
  have hadded : added n (h ++ [(s, .replace i)]) = added n h := by
    rw [added_concat, hreplacing]
    exact List.append_nil _
  have hfresh : Fresh n (s, .replace i) := by
    intro w' hw'
    rw [hreplacing] at hw'
    cases hw'
  refine ⟨by rw [hadded, hstore]; exact hinv.stored, ?_, ?_⟩
  · intro w' hw'
    rw [hadded, hstore]
    exact hinv.fetched w' (List.mem_of_mem_eraseIdx hw')
  · rw [hadded, hstore, List.forall_mem_append, List.forall_mem_singleton, and_iff_left hfresh]
    exact hinv.fresh

section

variable (reject : Json → String)

theorem submitted_newRules (cp : InMemControlPlane) (n : Text) (news : List NewRule) :
    (cp.newRules n news).map Rule.submitted = news :=
  InMemControlPlane.allotRules_submitted _ _ _ _

theorem inv_step {n : Text} {initial : List NewRule} {h : List Seen}
    {s : State InMemControlPlane} (hinv : Inv n initial h s) (e : Event)
    (hok : (step InMemControlPlane.managementStore reject s e).1 = true) :
    Inv n initial (h ++ [(s, e)]) (step InMemControlPlane.managementStore reject s e).2 := by
  cases e with
  | fetch add =>
    rw [step_fetch]
    exact inv_fetch hinv add
  | replace i =>
    rcases hi : s.waiting[i]? with _ | w
    · simp [step, hi] at hok
    · obtain ⟨rules, hw, hrules⟩ := hinv.fetched w (List.mem_of_getElem? hi)
      rw [step_replace reject hi hw hok]
      have hafter := s.store.rules_replaceRules w.add.account n
        (rules.map Rule.submitted ++ [w.add.submitted])
      by_cases hn : w.add.account = n
      · rw [if_pos hn.symm] at hafter
        apply inv_replace_same hinv hi hn hw (hrules hn).1 (hrules hn).2
        rw [hafter, submitted_newRules]
      · rw [if_neg (Ne.symm hn)] at hafter
        exact inv_replace_other hinv hi hn hafter

def start (store : InMemControlPlane) : State InMemControlPlane := ⟨store, []⟩

theorem inv_start (n : Text) (store : InMemControlPlane) :
    Inv n ((store.rules n).map Rule.submitted) [] (start store) := by
  refine ⟨⟨[], List.Sublist.refl _, by simp [start]⟩, ?_, ?_⟩
  · intro w hw
    cases hw
  · simp [start, added]

def Succeeds (h : List Seen) : Prop :=
  ∀ x ∈ h, (step InMemControlPlane.managementStore reject x.1 x.2).1 = true

end

/-- The stored list is the initial one and some of the rules added, in order; it is all of them
exactly when no list was stale as it was sent back. -/
theorem additions_kept (reject : Json → String) (store : InMemControlPlane) (n : Text)
    (es : List Event) {h : List Seen}
    (hrun : h = (machine InMemControlPlane.managementStore reject).history (start store) es)
    (hok : Succeeds reject h) :
    ∃ kept, kept.Sublist (added n h) ∧
      (((machine InMemControlPlane.managementStore reject).exec (start store) es).store.rules
        n).map Rule.submitted = (store.rules n).map Rule.submitted ++ kept ∧
      (kept = added n h ↔ ∀ x ∈ h, Fresh n x) := by
  have hinv := (machine InMemControlPlane.managementStore reject).history_invariant
    (fun h s => Succeeds reject h → Inv n ((store.rules n).map Rule.submitted) h s)
    (start store) (fun _ => inv_start n store) (fun h s e ih hok => by
      have hprefix : Succeeds reject h := fun x hx => hok x (List.mem_append_left _ hx)
      exact inv_step reject (ih hprefix) e (hok (s, e) (by simp))) es
  rw [← hrun] at hinv
  obtain ⟨⟨kept, hkept, hrules⟩, -, hfresh⟩ := hinv hok
  refine ⟨kept, hkept, hrules, ?_⟩
  have hlength := congrArg List.length hrules
  rw [List.length_map, List.length_append] at hlength
  rw [← hfresh]
  constructor
  · intro h
    rw [hlength, h]
  · intro hfull
    exact hkept.eq_of_length (by omega)

section

def denyA : Add := ⟨['1'], .Deny, .Domain, ['a'], none, none⟩

def limitB : Add := ⟨['1'], .Limit, .Wildcard, ['b'], some 5, some .Day⟩

def rejected (_ : Json) : String := ""

def inTurn : List Event := [.fetch denyA, .replace 0, .fetch limitB, .replace 0]

/-- Two commands that both fetch before either sends its list back. -/
def overlapping : List Event := [.fetch denyA, .fetch limitB, .replace 0, .replace 0]

set_option maxRecDepth 2000 in
theorem additions_kept_in_turn :
    Succeeds rejected ((machine InMemControlPlane.managementStore rejected).history
      (start InMemControlPlane.default) inTurn) ∧
    ∃ kept, kept.Sublist [denyA.submitted, limitB.submitted] ∧
      (((machine InMemControlPlane.managementStore rejected).exec
        (start InMemControlPlane.default) inTurn).store.rules ['1']).map Rule.submitted = kept := by
  have hok : Succeeds rejected ((machine InMemControlPlane.managementStore rejected).history
      (start InMemControlPlane.default) inTurn) := by
    unfold Succeeds
    decide +kernel
  obtain ⟨kept, hkept, hrules, -⟩ :=
    additions_kept rejected InMemControlPlane.default ['1'] inTurn rfl hok
  exact ⟨hok, kept, hkept, hrules⟩

set_option maxRecDepth 2000 in
/-- The second list sent back lacks the rule of the first. -/
theorem overlapping_additions_lost :
    ¬ ∀ (reject : Json → String) (store : InMemControlPlane) (n : Text) (es : List Event)
      (h : List Seen),
      h = (machine InMemControlPlane.managementStore reject).history (start store) es →
      Succeeds reject h →
      ((machine InMemControlPlane.managementStore reject).exec (start store) es).waiting = [] →
      ∃ all, all.Perm (added n h) ∧
        (((machine InMemControlPlane.managementStore reject).exec (start store) es).store.rules
          n).map Rule.submitted = (store.rules n).map Rule.submitted ++ all := by
  intro hall
  obtain ⟨all, hperm, hrules⟩ := hall rejected InMemControlPlane.default ['1'] overlapping _ rfl
    (by unfold Succeeds; decide +kernel) rfl
  have hstored : [limitB.submitted] = all := hrules
  have hadded : all.Perm [denyA.submitted, limitB.submitted] := hperm
  have hlength := hadded.length_eq
  rw [← hstored] at hlength
  cases hlength

end

end Admin

end Brdns
