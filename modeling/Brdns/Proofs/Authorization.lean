import Brdns.Lib.Ascii
import Brdns.Spec.Router

/-! The token check in front of the management API: every management route is behind it, and it
lets a request through exactly when its header carries the configured token. -/

namespace Brdns

open Lib

namespace Http

/-! ### Comparing octets -/

/-- The difference gathered over two texts of one length vanishes only where they agree. -/
theorem foldl_diff_eq_zero {a b : Bytes} (h : a.length = b.length) (diff : UInt8) :
    (a.zip b).foldl (fun diff x => diff ||| (x.1 ^^^ x.2)) diff = 0 ↔ diff = 0 ∧ a = b := by
  induction a generalizing b diff with
  | nil =>
    rw [List.eq_nil_of_length_eq_zero h.symm]
    simp
  | cons x a ih =>
    obtain ⟨y, b, rfl⟩ := List.exists_cons_of_length_eq_add_one h.symm
    rw [List.zip_cons_cons, List.foldl_cons, ih (Nat.succ.inj h), UInt8.or_eq_zero_iff,
      UInt8.xor_eq_zero_iff, List.cons.injEq, and_assoc]

theorem constantTimeEq_iff (a b : Bytes) : constantTimeEq a b = true ↔ a = b := by
  unfold constantTimeEq
  split_ifs with h
  · have hne : a ≠ b := fun heq => h (congrArg List.length heq)
    simpa using hne
  · rw [beq_iff_eq, foldl_diff_eq_zero (not_not.mp h)]
    simp

/-! ### The check -/

variable {σ : Type} {ax : Axum σ} {state : ApiState σ} {req : Incoming}

def Visible (s : Text) : Prop := ∀ c ∈ s, 32 ≤ c.toNat ∧ c.toNat < 127

theorem bearer_visible : Visible bearer := by
  have hall : bearer.all (fun c => decide (32 ≤ c.toNat ∧ c.toNat < 127)) = true := by
    decide +kernel
  exact fun c hc => of_decide_eq_true (List.all_eq_true.mp hall c hc)

/-- The configured token stands behind the scheme in the value read as text. -/
def Authorized (toStr : Bytes → Option Text) (state : ApiState σ) (req : Incoming) : Prop :=
  ∃ token ∈ state.token, (req.header authorization).bind toStr = some (bearer ++ token)

instance (toStr : Bytes → Option Text) (state : ApiState σ) (req : Incoming) :
    Decidable (Authorized toStr state req) := Option.decidableExistsMem _

theorem checked_iff (value : Option Text) (expected : Text) :
    ((value.bind (Text.stripPrefix bearer)).map
      fun token => constantTimeEq (Text.bytes token) (Text.bytes expected)).getD false = true ↔
        value = some (bearer ++ expected) := by
  cases value with
  | none => simp
  | some text =>
    rw [Option.bind_some, Option.some.injEq]
    cases hstrip : Text.stripPrefix bearer text with
    | none =>
      have hno := Text.stripPrefix_eq_none.mp hstrip
      have hne : text ≠ bearer ++ expected := fun heq => hno (heq ▸ List.prefix_append _ _)
      simpa using hne
    | some token =>
      rw [Text.stripPrefix_eq_some.mp hstrip, Option.map_some, Option.getD_some,
        constantTimeEq_iff, List.append_cancel_left_eq]
      exact ⟨Text.bytes_inj, congrArg Text.bytes⟩

theorem auth_authorized {toStr : Bytes → Option Text} (h : Authorized toStr state req)
    (next : Service σ) (s : σ) : auth toStr state next req s = next req s := by
  obtain ⟨token, htoken, hvalue⟩ := h
  rw [Option.mem_def] at htoken
  simp only [auth, htoken, if_pos ((checked_iff _ token).mpr hvalue)]

theorem auth_refuses {toStr : Bytes → Option Text} (h : ¬ Authorized toStr state req)
    (next : Service σ) (s : σ) : ∃ message, auth toStr state next req s = refuse message s := by
  cases htoken : state.token with
  | none => exact ⟨_, by simp only [auth, htoken]; rfl⟩
  | some token =>
    have hvalue : ¬ (req.header authorization).bind toStr = some (bearer ++ token) :=
      fun hvalue => h ⟨token, htoken, hvalue⟩
    refine ⟨"unauthorized", ?_⟩
    simp only [auth, htoken, if_neg (mt (checked_iff _ token).mp hvalue)]

/-- A request that passes has the token's octets behind the scheme's. -/
theorem Authorized.octets (hax : ax.Lawful) (h : Authorized ax.toStr state req) :
    ∃ token, state.token = some token ∧
      req.header authorization = some (Text.bytes bearer ++ Text.bytes token) := by
  obtain ⟨token, htoken, hvalue⟩ := h
  obtain ⟨value, hheader, htext⟩ := Option.bind_eq_some_iff.mp hvalue
  refine ⟨token, htoken, ?_⟩
  rw [hheader, ← hax.toStr_octets _ _ htext, Text.bytes_append]

theorem bytes_visible {s : Text} (h : Visible s) :
    ∀ b ∈ Text.bytes s, 32 ≤ b.toNat ∧ b.toNat < 127 := by
  have hascii : Text.IsAscii s := fun c hc => (h c hc).2.trans (by decide)
  rw [Text.bytes_of_ascii hascii]
  intro b hb
  obtain ⟨c, hc, rfl⟩ := List.mem_map.mp hb
  rw [Text.ascii_byte (hascii c hc)]
  exact h c hc

/-- Octets of a visible token are read as the text they are. -/
theorem authorized_of_octets (hax : ax.Lawful) {token : Text} (hvisible : Visible token)
    (htoken : state.token = some token)
    (hheader : req.header authorization = some (Text.bytes bearer ++ Text.bytes token)) :
    Authorized ax.toStr state req := by
  have hall : Visible (bearer ++ token) :=
    List.forall_mem_append.mpr ⟨bearer_visible, hvisible⟩
  rw [← Text.bytes_append] at hheader
  obtain ⟨text, htext⟩ := hax.toStr_visible _ (bytes_visible hall)
  refine ⟨token, htoken, ?_⟩
  rw [hheader, Option.bind_some, htext, Text.bytes_inj (hax.toStr_octets _ _ htext)]

/-! ### The routes -/

def Handler.all : List Handler :=
  [.createAccount, .getAccount, .listRules, .replaceRules, .listUpstreams, .replaceUpstreams,
    .listPresets]

theorem Handler.mem_all (h : Handler) : h ∈ all := by cases h <;> simp [all]

def Handler.key : Handler → RouteKey
  | .createAccount => ("/api/accounts", .POST)
  | .getAccount => ("/api/accounts/{acct}", .GET)
  | .listRules => ("/api/accounts/{acct}/rules", .GET)
  | .replaceRules => ("/api/accounts/{acct}/rules", .PUT)
  | .listUpstreams => ("/api/accounts/{acct}/upstreams", .GET)
  | .replaceUpstreams => ("/api/accounts/{acct}/upstreams", .PUT)
  | .listPresets => ("/api/upstreams/presets", .GET)

def healthzKey : RouteKey := ("/healthz", .GET)

theorem Handler.key_ne_healthz (h : Handler) : h.key ≠ healthzKey := by
  cases h <;> decide

theorem Handler.key_inj {h h' : Handler} (heq : h.key = h'.key) : h = h' := by
  have hall : ∀ h ∈ all, ∀ h' ∈ all, h.key = h'.key → h = h' := by decide
  exact hall h h.mem_all h' h'.mem_all heq

/-- The layer stands in front of every management handler. -/
theorem routes_router (hax : ax.Lawful) (ext : Extractors) (state : ApiState σ) :
    ax.routes (router ax ext state) = (healthzKey, healthz) ::
      Handler.all.map fun h => (h.key, auth ax.toStr state (service state.cp ext h)) := by
  simp only [router, hax.routes_merge, hax.routes_layer, hax.routes_route, hax.routes_new]
  rfl

/-- A request to a management route is answered by the check in front of its handler. -/
theorem call_routed (hax : ax.Lawful) {ext : Extractors} {h : Handler}
    (hroute : ax.find ((ax.routes (router ax ext state)).map Prod.fst) req = some h.key) :
    ax.call (router ax ext state) req = auth ax.toStr state (service state.cp ext h) req := by
  obtain ⟨next, hnext, hcall⟩ := hax.call_found _ _ _ hroute
  rw [routes_router hax, List.mem_cons, List.mem_map] at hnext
  rcases hnext with hhealthz | ⟨h', -, heq⟩
  · exact absurd (congrArg Prod.fst hhealthz) h.key_ne_healthz
  · obtain ⟨hkey, rfl⟩ := Prod.mk.injEq .. ▸ heq
    rw [hcall, Handler.key_inj hkey]

theorem service_reached (store : ManagementStore σ) (ext : Extractors) (h : Handler)
    (req : Incoming) (s : σ) : (service store ext h req s).reached = some h := by
  unfold service
  split <;> rfl

/-- A request to a management route reaches its handler only with the configured token in its
header, and always then when the token is visible; else it is refused and changes nothing. -/
theorem management_authorized (ax : Axum σ) (hax : ax.Lawful) (ext : Extractors)
    (state : ApiState σ) (req : Incoming) (h : Handler)
    (hroute : ax.find ((ax.routes (router ax ext state)).map Prod.fst) req = some h.key) (s : σ) :
    ((ax.call (router ax ext state) req s).reached = some h →
      ∃ token, state.token = some token ∧
        req.header authorization = some (Text.bytes bearer ++ Text.bytes token)) ∧
    (∀ token, state.token = some token → (∀ c ∈ token, 32 ≤ c.toNat ∧ c.toNat < 127) →
      req.header authorization = some (Text.bytes bearer ++ Text.bytes token) →
      (ax.call (router ax ext state) req s).reached = some h ∧
        ax.call (router ax ext state) req s = service state.cp ext h req s) ∧
    ((ax.call (router ax ext state) req s).reached ≠ some h →
      (∃ message, (ax.call (router ax ext state) req s).answer =
        .ok (.api (err 401 message))) ∧
        (ax.call (router ax ext state) req s).state = s) ∧
    ∀ a b : Bytes, constantTimeEq a b = true ↔ a = b := by
  have hreached := service_reached state.cp ext h req s
  rw [call_routed hax hroute]
  refine ⟨?_, ?_, ?_, constantTimeEq_iff⟩
  · intro hran
    by_contra hheader
    obtain ⟨message, hrefuse⟩ :=
      auth_refuses (fun hauth => hheader (hauth.octets hax)) (service state.cp ext h) s
    rw [hrefuse] at hran
    cases hran
  · intro token htoken hvisible hheader
    rw [auth_authorized (authorized_of_octets hax hvisible htoken hheader)]
    exact ⟨hreached, rfl⟩
  · intro hran
    have hauth : ¬ Authorized ax.toStr state req := by
      intro hauth
      rw [auth_authorized hauth] at hran
      exact hran hreached
    obtain ⟨message, hrefuse⟩ := auth_refuses hauth (service state.cp ext h) s
    rw [hrefuse]
    exact ⟨⟨message, rfl⟩, rfl⟩

/-! ### Runs -/

def admitted (toStr : Bytes → Option Text) (ext : Extractors) (state : ApiState σ)
    (x : Handler × Incoming) : Option Request :=
  if Authorized toStr state x.2 then (extract ext x.2 x.1).toOption else none

theorem service_state (store : ManagementStore σ) (ext : Extractors) (h : Handler)
    (req : Incoming) (s : σ) : (service store ext h req s).state =
      (machine store).exec s (extract ext req h).toOption.toList := by
  unfold service
  cases extract ext req h <;> rfl

theorem call_state (hax : ax.Lawful) {ext : Extractors} {h : Handler}
    (hroute : ax.find ((ax.routes (router ax ext state)).map Prod.fst) req = some h.key) (s : σ) :
    (ax.call (router ax ext state) req s).state =
      (machine state.cp).exec s (admitted ax.toStr ext state (h, req)).toList := by
  rw [call_routed hax hroute, admitted]
  split_ifs with hauth
  · rw [auth_authorized hauth, service_state]
  · obtain ⟨message, hrefuse⟩ := auth_refuses hauth (service state.cp ext h) s
    rw [hrefuse]
    rfl

/-! ### A table of routes -/

def onPath (pattern : String) (path : Text) : Bool :=
  let pattern := Text.split '/' pattern.toList
  let path := Text.split '/' path
  pattern.length = path.length && (pattern.zip path).all fun x =>
    x.1 = x.2 || x.1.head? = some '{' && !x.2.isEmpty

def hasMethod (method : Text) : MethodFilter → Bool
  | .GET => method = "GET".toList || method = "HEAD".toList
  | .POST => method = "POST".toList
  | .PUT => method = "PUT".toList

def findRoute (keys : List RouteKey) (req : Incoming) : Option RouteKey :=
  keys.find? fun key => onPath key.1 req.path && hasMethod req.method key.2

def Axum.table (σ : Type) : Axum σ where
  Router := List (RouteKey × Service σ)
  new := []
  route path methods r := r ++ methods.map fun m => ((path, m.1), m.2)
  layer f r := r.map fun x => (x.1, f x.2)
  merge r r' := r ++ r'
  routes r := r
  find := findRoute
  call r req s :=
    match (findRoute (r.map Prod.fst) req).bind fun key => r.find? fun x => x.1 = key with
    | some x => x.2 req s
    | none => ⟨none, .ok (.api (err 404 "not found")), s⟩
  toStr v :=
    if v.all fun b => 32 ≤ b && b < 127 || b == 9 then some (v.map fun b => Char.ofNat b.toNat)
    else none

theorem Axum.table_lawful (σ : Type) : (Axum.table σ).Lawful where
  routes_new := rfl
  routes_route := fun _ _ _ => rfl
  routes_layer := fun _ _ => rfl
  routes_merge := fun _ _ => rfl
  call_found := by
    intro r req key hfind
    obtain ⟨x, hx, rfl⟩ := List.mem_map.mp (List.mem_of_find?_eq_some hfind)
    have hsome : (r.find? fun y => y.1 = x.1).isSome = true :=
      List.find?_isSome.mpr ⟨x, hx, by simp⟩
    obtain ⟨y, hy⟩ := Option.isSome_iff_exists.mp hsome
    have hkey : y.1 = x.1 := by simpa using List.find?_some hy
    refine ⟨y.2, hkey ▸ List.mem_of_find?_eq_some hy, ?_⟩
    funext s
    have hfind : findRoute (r.map Prod.fst) req = some x.1 := hfind
    simp only [table, hfind, Option.bind_some, hy]
  toStr_octets := by
    intro v t h
    obtain ⟨hall, ht⟩ := Option.ite_none_right_eq_some.mp h
    obtain rfl := Option.some.inj ht
    apply Text.bytes_of_octets
    intro b hb
    have hvisible := List.all_eq_true.mp hall b hb
    simp only [Bool.or_eq_true, Bool.and_eq_true, decide_eq_true_eq, beq_iff_eq] at hvisible
    rcases hvisible with ⟨-, hlt⟩ | rfl
    · exact (UInt8.lt_iff_toNat_lt.mp hlt).trans (by decide)
    · decide
  toStr_visible := by
    intro v h
    refine ⟨_, if_pos (List.all_eq_true.mpr fun b hb => ?_)⟩
    obtain ⟨hlow, hhigh⟩ := h b hb
    have hlow : 32 ≤ b := UInt8.le_iff_toNat_le.mpr hlow
    have hhigh : b < 127 := UInt8.lt_iff_toNat_lt.mpr hhigh
    simp [hlow, hhigh]

def presetsRequest (token : Text) : Incoming :=
  ⟨"GET".toList, "/api/upstreams/presets".toList, [(authorization, Text.bytes (bearer ++ token))],
    [], []⟩

def testState : ApiState InMemControlPlane :=
  ⟨InMemControlPlane.managementStore, some "test-token".toList⟩

def noExtractors : Extractors :=
  let rejection := err 400 "not extracted"
  ⟨fun _ => .error rejection, fun _ => .error rejection, fun _ => .error rejection,
    fun _ => .error rejection⟩

theorem management_authorized_presets :
    ((Axum.table _).call (router (Axum.table _) noExtractors testState)
      (presetsRequest "test-token".toList) InMemControlPlane.default).reached =
        some .listPresets :=
  ((management_authorized (Axum.table _) (Axum.table_lawful _) noExtractors testState
    (presetsRequest "test-token".toList) .listPresets (by decide +kernel)
    InMemControlPlane.default).2.1 "test-token".toList rfl (by simp) (by decide +kernel)).1

end Http

end Brdns
