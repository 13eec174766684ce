import Brdns.Lib.Lines
import Brdns.Proofs.Additions
import Brdns.Proofs.Hostnames
import Brdns.Proofs.Listings

/-! What `brdns-admin rules list` and `upstreams list` print is a backup: `set` takes it on any
server whose store takes what the first one took, and then the lists are the same. Only a listing
that is longer than a body may be is not taken. -/

namespace Brdns

open Lib Database

/-! ### Lists as JSON -/

theorem Json.asPort_toNat (port : UInt16) : Json.asPort (.number port.toNat) = some port := by
  have hlt : (port.toNat : ℤ) < 65536 := by
    have := port.toNat_lt
    omega
  unfold Json.asPort
  dsimp only
  rw [if_pos ⟨Int.natCast_nonneg _, hlt⟩, Int.toNat_natCast, UInt16.ofNat_toNat]

/-- The fields that the server adds are ignored on the way back. -/
theorem NewRule.ofJson_toJson {r : Rule} (h : r.submitted.LimitFits) :
    NewRule.ofJson r.toJson = some r.submitted := by
  have hread : ofJson r.toJson = if r.submitted.LimitFits then some r.submitted else none := by
    unfold Rule.toJson ofJson
    apply ofFields_eq r.submitted <;> simp [List.lookup, Rule.submitted]
  rw [hread, if_pos h]

theorem NewUpstream.ofFields_eq {fields : List (String × Json)} (new : NewUpstream)
    (hname : fields.lookup "name" = some (.string new.name))
    (hprotocol : fields.lookup "protocol" = some (.string new.protocol.asStr))
    (hhost : fields.lookup "host" = some (.string new.host))
    (hport : fields.lookup "port" = some (.number new.port.toNat))
    (haddr : fields.lookup "addr" = some (.ofOption (new.addr.map .string))) :
    ofFields fields = some new := by
  have hread := Json.asOption_ofOption Json.asText .string (fun _ => rfl) rfl new.addr
  have hvariant : Json.asVariant UpstreamProtocol.fromStr (.string new.protocol.asStr) =
      some new.protocol := by
    cases new.protocol <;> rfl
  unfold ofFields
  rw [hname, hprotocol, hhost, hport, haddr, Option.bind_some, Option.bind_some, Option.bind_some,
    Option.bind_some, hvariant, Json.asPort_toNat]
  change (Json.asOption Json.asText (Json.ofOption (new.addr.map .string))).bind _ = _
  rw [hread]
  rfl

theorem NewUpstream.ofJson_toJson (u : Upstream) :
    NewUpstream.ofJson u.toJson = some u.submitted := by
  unfold Upstream.toJson NewUpstream.ofJson
  apply NewUpstream.ofFields_eq u.submitted <;> simp only [List.lookup] <;> rfl

theorem mapM_ofJson {α β : Type} {toJson : α → Json} {ofJson : Json → Option β}
    {submitted : α → β} {as : List α} (h : ∀ a ∈ as, ofJson (toJson a) = some (submitted a)) :
    (as.map toJson).mapM ofJson = some (as.map submitted) := by
  induction as with
  | nil => rfl
  | cons a as ih =>
    rw [List.forall_mem_cons] at h
    rw [List.map_cons, List.mapM_cons, h.1, ih h.2]
    rfl

namespace Admin

section

variable (reject : Json → String) (route : Routing) (random : List UInt8)

/-- A body is read if it is not too long. -/
theorem extractBody_eq {α : Type} {ofJson : Json → Option α} {v : Json} {a : α}
    (h : ofJson v = some a) : extractBody reject ofJson (some v) = if v.size ≤ bodyLimit then .ok a
      else .error (Http.err 413 "Failed to buffer the request body: length limit exceeded") := by
  change extractJson reject ofJson v = _
  unfold extractJson
  rw [h]
  by_cases hlong : bodyLimit < v.size
  · rw [if_pos hlong, if_neg (not_le.mpr hlong)]
  · rw [if_neg hlong, if_pos (not_lt.mp hlong)]

/-! ### Backups -/

variable {σ τ : Type} (source : ControlPlane σ) (s : σ) (a : Text) (target : ControlPlane τ) (t : τ)
  (b : Text)

/-- The rules that are listed for `a` on the one server are taken for `b` on the other, and are then
listed there under new ids. -/
def RestoresRules : Prop :=
  let v := Json.array ((source.shelves s a).rules.map Rule.toJson)
  let (printed, t') := (Command.rulesSet b v).run target.toManagementStore reject route random t
  (Command.rulesList a).run source.toManagementStore reject route random s = (some v, s) ∧
    if v.size ≤ bodyLimit then
      ∃ rules, rules.map Rule.submitted = (source.shelves s a).rules.map Rule.submitted ∧
        printed = some (.array (rules.map Rule.toJson)) ∧
        target.shelves t' = (target.shelves t).putRules b rules
    else printed = none ∧ t' = t

def RestoresUpstreams : Prop :=
  let v := Json.array ((source.shelves s a).upstreams.map Upstream.toJson)
  let (printed, t') := (Command.upstreamsSet b v).run target.toManagementStore reject route random t
  (Command.upstreamsList a).run source.toManagementStore reject route random s = (some v, s) ∧
    if v.size ≤ bodyLimit then
      ∃ ups, ups.map Upstream.submitted = (source.shelves s a).upstreams.map Upstream.submitted ∧
        printed = some (.array (ups.map Upstream.toJson)) ∧
        target.shelves t' = (target.shelves t).putUpstreams b ups
    else printed = none ∧ t' = t

def Restores : Prop :=
  RestoresRules reject route random source s a target t b ∧
    RestoresUpstreams reject route random source s a target t b

variable {reject route random source s a target t b} {Good : σ → Prop} {Named : Text → Prop}
  {TakesRules : List NewRule → Prop} {TakesUpstreams : List NewUpstream → Prop}
  {Good' : τ → Prop} {Named' : Text → Prop} {Fits TakesRules' : List NewRule → Prop}
  {TakesUpstreams' : List NewUpstream → Prop}

/-- A list that the store takes is carried out. -/
theorem rules_taken (htarget : target.Serves Good' Named' TakesRules' TakesUpstreams')
    (hkeeps : target.KeepsShelves Good' Fits) (ht : Good' t) (hb : Named' b) {news : List NewRule}
    (hvalid : news.any Http.invalidRule = false) (hfits : Fits news) (htakes : TakesRules' news) :
    ∃ rules, rules.map Rule.submitted = news ∧
      (Http.replaceRules target.toManagementStore t b news).1 = .ok ⟨200, .rules rules⟩ ∧
      target.shelves (Http.replaceRules target.toManagementStore t b news).2 =
        (target.shelves t).putRules b rules := by
  obtain ⟨out, hout⟩ := htarget.replaceRules t b news hb htakes
  have hreplaced := (hkeeps.replaceRules t b news ht hfits).2
  rw [hout] at hreplaced
  obtain ⟨hsubmitted, hshelves⟩ := hreplaced.of_ok
  unfold Http.replaceRules
  rw [if_neg (by simp [hvalid])]
  exact ⟨out, hsubmitted, congrArg (Http.answer _) hout, hshelves⟩

theorem upstreams_taken (htarget : target.Serves Good' Named' TakesRules' TakesUpstreams')
    (hkeeps : target.KeepsShelves Good' Fits) (ht : Good' t) (hb : Named' b)
    {news : List NewUpstream} (htakes : TakesUpstreams' news) :
    ∃ ups, ups.map Upstream.submitted = news ∧
      (Http.replaceUpstreams target.toManagementStore t b news).1 = .ok ⟨200, .upstreams ups⟩ ∧
      target.shelves (Http.replaceUpstreams target.toManagementStore t b news).2 =
        (target.shelves t).putUpstreams b ups := by
  obtain ⟨out, hout⟩ := htarget.replaceUpstreams t b news hb htakes
  have hreplaced := (hkeeps.replaceUpstreams t b news ht).2
  rw [hout] at hreplaced
  obtain ⟨hsubmitted, hshelves⟩ := hreplaced.of_ok
  exact ⟨out, hsubmitted, congrArg (Http.answer _) hout, hshelves⟩

theorem run_rulesList (hroute : route.Lawful) (ha : isValidAccountNumber a) :
    (Command.rulesList a).run source.toManagementStore reject route random s =
      (request (Http.listRules source.toManagementStore s a), s) := by
  unfold Command.run serve Command.sent
  rw [hroute.listRules a ha]
  rfl

theorem run_upstreamsList (hroute : route.Lawful) (ha : isValidAccountNumber a) :
    (Command.upstreamsList a).run source.toManagementStore reject route random s =
      (request (Http.listUpstreams source.toManagementStore s a), s) := by
  unfold Command.run serve Command.sent
  rw [hroute.listUpstreams a ha]
  rfl

/-- A list that is set is read if it is not too long, and else nothing happens. -/
theorem run_rulesSet (hroute : route.Lawful) (hb : isValidAccountNumber b) {v : Json}
    {news : List NewRule} (hread : Json.asList NewRule.ofJson v = some news) :
    (Command.rulesSet b v).run target.toManagementStore reject route random t =
      if v.size ≤ bodyLimit then
        (request (Http.replaceRules target.toManagementStore t b news).1,
          (Http.replaceRules target.toManagementStore t b news).2)
      else (none, t) := by
  unfold Command.run serve Command.sent handled
  rw [hroute.replaceRules b hb]
  dsimp only
  rw [extractBody_eq reject hread]
  split_ifs <;> rfl

theorem run_upstreamsSet (hroute : route.Lawful) (hb : isValidAccountNumber b) {v : Json}
    {news : List NewUpstream} (hread : Json.asList NewUpstream.ofJson v = some news) :
    (Command.upstreamsSet b v).run target.toManagementStore reject route random t =
      if v.size ≤ bodyLimit then
        (request (Http.replaceUpstreams target.toManagementStore t b news).1,
          (Http.replaceUpstreams target.toManagementStore t b news).2)
      else (none, t) := by
  unfold Command.run serve Command.sent handled
  rw [hroute.replaceUpstreams b hb]
  dsimp only
  rw [extractBody_eq reject hread]
  split_ifs <;> rfl

theorem restoresRules (hroute : route.Lawful) (ha : isValidAccountNumber a)
    (hb : isValidAccountNumber b) (hsource : source.Serves Good Named TakesRules TakesUpstreams)
    (htarget : target.Serves Good' Named' TakesRules' TakesUpstreams')
    (hkeeps : target.KeepsShelves Good' Fits) (hs : Good s) (ht : Good' t) (hna : Named a)
    (hnb : Named' b) {news : List NewRule}
    (hnews : (source.shelves s a).rules.map Rule.submitted = news)
    (hlimits : ∀ new ∈ news, new.LimitFits) (hvalid : news.any Http.invalidRule = false)
    (hfits : Fits news) (htakes : TakesRules' news) :
    RestoresRules reject route random source s a target t b := by
  have hread : Json.asList NewRule.ofJson
      (.array ((source.shelves s a).rules.map Rule.toJson)) = some news := by
    rw [← hnews]
    refine mapM_ofJson fun r hr => NewRule.ofJson_toJson (hlimits _ ?_)
    exact hnews ▸ List.mem_map_of_mem hr
  unfold RestoresRules
  dsimp only
  rw [run_rulesSet hroute hb hread, run_rulesList hroute ha, (hsource.shows hs hna).1]
  refine ⟨rfl, ?_⟩
  split_ifs with hsize
  · obtain ⟨rules, hsubmitted, hanswer, hshelves⟩ :=
      rules_taken htarget hkeeps ht hnb hvalid hfits htakes
    exact ⟨rules, hsubmitted.trans hnews.symm, congrArg request hanswer, hshelves⟩
  · exact ⟨rfl, rfl⟩

theorem restoresUpstreams (hroute : route.Lawful) (ha : isValidAccountNumber a)
    (hb : isValidAccountNumber b) (hsource : source.Serves Good Named TakesRules TakesUpstreams)
    (htarget : target.Serves Good' Named' TakesRules' TakesUpstreams')
    (hkeeps : target.KeepsShelves Good' Fits) (hs : Good s) (ht : Good' t) (hna : Named a)
    (hnb : Named' b)
    (htakes : TakesUpstreams' ((source.shelves s a).upstreams.map Upstream.submitted)) :
    RestoresUpstreams reject route random source s a target t b := by
  have hread : Json.asList NewUpstream.ofJson
      (.array ((source.shelves s a).upstreams.map Upstream.toJson)) =
        some ((source.shelves s a).upstreams.map Upstream.submitted) :=
    mapM_ofJson fun u _ => NewUpstream.ofJson_toJson u
  unfold RestoresUpstreams
  dsimp only
  rw [run_upstreamsSet hroute hb hread, run_upstreamsList hroute ha, (hsource.shows hs hna).2]
  refine ⟨rfl, ?_⟩
  split_ifs with hsize
  · obtain ⟨ups, hsubmitted, hanswer, hshelves⟩ := upstreams_taken htarget hkeeps ht hnb htakes
    exact ⟨ups, hsubmitted, congrArg request hanswer, hshelves⟩
  · exact ⟨rfl, rfl⟩

end

end Admin

/-! ### Runs -/

theorem nulFree_of_valid {n : Text} (h : isValidAccountNumber n) : NulFree n :=
  fun hnul => absurd ((valid_number h).2 _ hnul) (by decide)

theorem Input.Fits.imp {ω : Type} {Fits Fits' : List NewRule → Prop}
    (himp : ∀ news, Fits news → Fits' news) {i : Input ω} (h : i.Fits Fits) : i.Fits Fits' := by
  cases i with
  | api req =>
    cases req with
    | replaceRules n body =>
      cases body with
      | error rejection => trivial
      | ok news => exact himp news h
    | _ => trivial
  | _ => trivial

section

variable {σ ω : Type} [Text.UnicodeTables]

variable {store : Store σ ω} {Good : σ → Prop} {Named : Text → Prop} {durable : Bool}
  {Fits Fits' TakesRules : List NewRule → Prop} {TakesUpstreams : List NewUpstream → Prop}

/-- What a run leaves is good, and all of its lists are on file. -/
theorem served_filed (setup : Setup) (hstore : store.KeepsShelves Good Fits' durable)
    (hserves : store.Serves Good Named TakesRules TakesUpstreams)
    (himp : ∀ news, Fits news → Fits' news) (hempty : Fits []) {cp : σ} (hgood : Good cp)
    (hfresh : store.shelves cp = .empty) (boot : Boot ω) (is : List (Input ω))
    (hfits : ∀ i ∈ is, i.Fits Fits) : Good (Runtime.served store setup cp boot is) ∧
      (store.book (Runtime.served store setup cp boot is)).Filed Fits TakesRules
        TakesUpstreams := by
  obtain ⟨hconnected, hshelves⟩ := hstore.connect cp hgood
  rw [hfresh, ite_self] at hshelves
  have hbooked := run_booked setup hstore hconnected boot is fun i hi => (hfits i hi).imp himp
  have hfiled := run_filed setup durable hserves hempty hshelves boot is hfits
  have hrun := (Runtime.machine store setup).observe_exec
    (fun journal _ i reaction => Journal.after journal durable i reaction)
    (Runtime.start store setup (store.connect cp) boot).2 (.opened (store.shelves (store.connect cp)))
    is
  have hserved : Runtime.served store setup cp boot is = ((Runtime.booked store setup durable).exec
      (Runtime.bookedStart store setup (store.connect cp) boot) is).1.cp :=
    (congrArg Runtime.cp hrun).symm
  rw [hserved]
  refine ⟨hbooked.good, ?_⟩
  unfold ControlPlane.book
  rw [hbooked.kept, hbooked.sent]
  exact hfiled

end

section

variable [Text.UnicodeTables] (setup : Setup)

theorem memory_filed (boot : Boot ℤ) {is : List (Input ℤ)}
    (hfits : ∀ i ∈ is, i.Fits fun news => ∀ new ∈ news, new.LimitFits) :
    (InMemControlPlane.controlPlane.book
      (Runtime.served InMemControlPlane.store setup InMemControlPlane.default boot is)).Filed
        (fun news => ∀ new ∈ news, new.LimitFits) (fun _ => True) fun _ => True :=
  (served_filed setup InMemControlPlane.store_keepsShelves InMemControlPlane.serves
    (fun _ _ => trivial) (by simp) trivial (funext fun _ => rfl) boot is hfits).2

theorem tables_filed (tables : BlocklistTables) (boot : Boot (ℤ × BlocklistTables.IterationOrder))
    {is : List (Input _)}
    (hfits : ∀ i ∈ is, i.Fits fun news => news.length ≤ 2 ^ 31 ∧ ∀ new ∈ news, new.LimitFits) :
    PostgresControlPlane.Reachable
      (Runtime.served PostgresControlPlane.store setup (Database.empty, tables) boot is).1 ∧
      (PostgresControlPlane.controlPlane.book
        (Runtime.served PostgresControlPlane.store setup (Database.empty, tables) boot is).1).Filed
          (fun news => news.length ≤ 2 ^ 31 ∧ ∀ new ∈ news, new.LimitFits)
          PostgresControlPlane.TakesRules PostgresControlPlane.TakesUpstreams :=
  served_filed setup PostgresControlPlane.store_keepsShelves
    (PostgresControlPlane.serves.first BlocklistTables) (fun _ h => h.1) (by simp)
    PostgresControlPlane.Reachable.empty
    (funext fun _ => PostgresControlPlane.shelves_unnamed rfl) boot is hfits

/-- After any run of the program, what `list` prints for an account is taken by `set`, for any
account of any server with the same store, unless it is longer than a body may be. The account has
the same list then, under new ids, and nothing else has changed; and nothing at all has where the
listing is not taken. Backups of tables are taken in memory too. -/
theorem backup_restores (route : Admin.Routing) (hroute : route.Lawful) (reject : Json → String)
    (random : List UInt8) (a b : Text) (ha : isValidAccountNumber a) (hb : isValidAccountNumber b) :
    (∀ (boot : Boot ℤ) (is : List (Input ℤ)) (t : InMemControlPlane),
      (∀ i ∈ is, i.Fits fun news => ∀ new ∈ news, new.LimitFits) →
      Admin.Restores reject route random InMemControlPlane.controlPlane
        (Runtime.served InMemControlPlane.store setup InMemControlPlane.default boot is) a
        InMemControlPlane.controlPlane t b) ∧
    ∀ (tables : BlocklistTables) (boot : Boot (ℤ × BlocklistTables.IterationOrder))
      (is : List (Input _)),
      (∀ i ∈ is, i.Fits fun news => news.length ≤ 2 ^ 31 ∧ ∀ new ∈ news, new.LimitFits) →
      (∀ db : PostgresControlPlane, PostgresControlPlane.Reachable db →
        Admin.Restores reject route random PostgresControlPlane.controlPlane
          (Runtime.served PostgresControlPlane.store setup (Database.empty, tables) boot is).1 a
          PostgresControlPlane.controlPlane db b) ∧
      ∀ t : InMemControlPlane, Admin.Restores reject route random PostgresControlPlane.controlPlane
        (Runtime.served PostgresControlPlane.store setup (Database.empty, tables) boot is).1 a
        InMemControlPlane.controlPlane t b := by
  have hna := nulFree_of_valid ha
  have hnb := nulFree_of_valid hb
  refine ⟨fun boot is t hfits => ?_, fun tables boot is hfits => ?_⟩
  · have hfiled := memory_filed setup boot hfits
    exact ⟨Admin.restoresRules hroute ha hb InMemControlPlane.serves InMemControlPlane.serves
        InMemControlPlane.keepsShelves trivial trivial trivial trivial rfl (hfiled.fits a)
        (hfiled.valid a) trivial trivial,
      Admin.restoresUpstreams hroute ha hb InMemControlPlane.serves InMemControlPlane.serves
        InMemControlPlane.keepsShelves trivial trivial trivial trivial trivial⟩
  obtain ⟨hgood, hfiled⟩ := tables_filed setup tables boot hfits
  refine ⟨fun db hdb => ?_, fun t => ?_⟩
  · exact ⟨Admin.restoresRules hroute ha hb PostgresControlPlane.serves PostgresControlPlane.serves
        PostgresControlPlane.keepsShelves hgood hdb hna hnb rfl (hfiled.fits a).2 (hfiled.valid a)
        (hfiled.fits a).1 (hfiled.rules a),
      Admin.restoresUpstreams hroute ha hb PostgresControlPlane.serves PostgresControlPlane.serves
        PostgresControlPlane.keepsShelves hgood hdb hna hnb (hfiled.upstreams a)⟩
  · exact ⟨Admin.restoresRules hroute ha hb PostgresControlPlane.serves InMemControlPlane.serves
        InMemControlPlane.keepsShelves hgood trivial hna trivial rfl (hfiled.fits a).2
        (hfiled.valid a) trivial trivial,
      Admin.restoresUpstreams hroute ha hb PostgresControlPlane.serves InMemControlPlane.serves
        InMemControlPlane.keepsShelves hgood trivial hna trivial trivial⟩

end

section

/-- A router that takes a path as it is written. -/
def Admin.verbatim : Admin.Routing := fun method path =>
  match (Text.stripPrefix "/api/accounts/".toList path).map (Text.split '/') with
  | some [account, page] =>
    match method, page == "rules".toList, page == "upstreams".toList with
    | .GET, true, _ => .ok (.listRules, account)
    | .PUT, true, _ => .ok (.replaceRules, account)
    | .GET, _, true => .ok (.listUpstreams, account)
    | .PUT, _, true => .ok (.replaceUpstreams, account)
    | _, _, _ => .error (Http.err 405 "")
  | _ => .error (Http.err 404 "")

theorem Admin.verbatim_lawful : Admin.verbatim.Lawful := by
  have hsegments {n page : Text} (hn : isValidAccountNumber n) (hpage : '/' ∉ page) :
      (Text.stripPrefix "/api/accounts/".toList ("/api/accounts/".toList ++ n ++ '/' :: page)).map
        (Text.split '/') = some [n, page] := by
    have hslash : '/' ∉ n := fun hmem => absurd ((valid_number hn).2 _ hmem) (by decide)
    rw [Text.stripPrefix_eq_some.mpr (List.append_assoc _ _ _), Option.map_some, Text.split_append,
      Text.split_of_not_mem hslash, Text.split_of_not_mem hpage]
    rfl
  have hrules {n : Text} (hn : isValidAccountNumber n) :=
    hsegments hn (show '/' ∉ "rules".toList by decide)
  have hups {n : Text} (hn : isValidAccountNumber n) :=
    hsegments hn (show '/' ∉ "upstreams".toList by decide)
  have hrulesPath (n : Text) : rulesPath n =
      "/api/accounts/".toList ++ n ++ '/' :: "rules".toList := rfl
  have hupstreamsPath (n : Text) : upstreamsPath n =
      "/api/accounts/".toList ++ n ++ '/' :: "upstreams".toList := rfl
  unfold verbatim
  refine ⟨fun n hn => ?_, fun n hn => ?_, fun n hn => ?_, fun n hn => ?_⟩
  · rw [hrulesPath, hrules hn]
    rfl
  · rw [hrulesPath, hrules hn]
    rfl
  · rw [hupstreamsPath, hups hn]
    rfl
  · rw [hupstreamsPath, hups hn]
    rfl

attribute [local instance] Text.asciiTables

def filed {ω : Type} : List (Input ω) := [.api (.replaceRules ['1'] (.ok [denyB]))]

theorem backup_restores_filed : ∃ order : BlocklistTables.IterationOrder,
    Admin.Restores Admin.rejected Admin.verbatim [] PostgresControlPlane.controlPlane
      (Runtime.served PostgresControlPlane.store plainSetup
        (Database.empty, BlocklistTables.empty) (calmBoot (0, order)) filed).1 ['1']
      InMemControlPlane.controlPlane InMemControlPlane.default ['2'] := by
  obtain ⟨order⟩ := BlocklistTables.iterationOrder_nonempty
  refine ⟨order, ((backup_restores plainSetup Admin.verbatim Admin.verbatim_lawful Admin.rejected []
    ['1'] ['2'] (by decide) (by decide)).2 _ _ _ ?_).2 _⟩
  unfold filed
  simp [Input.Fits, Http.Request.Fits, NewRule.LimitFits, denyB]

end

end Brdns
