import HookExecutor.Verification.NetworkLast
import HookExecutor.Verification.Runs

/-!
# What networks keys are bound to

The networks of a key are written as a text in three places and read in one. A
key is created, and edited, with a text whose entries were accepted, and reading
a text back finds those entries. The first start writes a text of its own that
nobody looked at, so everything stands or falls with the entries of that one.
-/

namespace HookExecutor

open Text

/-- What a key is bound to from the first start on. -/
def Startup.boundIps (start : Startup) : String := start.bootstrapSubnet.getD "0.0.0.0/0,::/0"

/-- Every entry of a stored text names a network. -/
def BindingParses (platform : Platform) (stored : Option String) : Prop :=
  ∀ entry ∈ listEntries (stored.getD ""), (platform.parseNetwork entry).isSome = true

/-- What a request writes for the networks of a key, if it writes them. -/
def AdminRequest.binding : AdminRequest → Option (Option String)
  | .createApiKey payload => some payload.boundIps
  | .updateApiKey _ payload => payload.boundIps.map some
  | _ => none

def Request.binding : Request → Option (Option String)
  | .admin _ request => request.binding
  | .invoke _ => none

/-- The value is what is written, and every entry of it was accepted. -/
def AcceptedBinding (platform : Platform) (written : Option (Option String))
    (stored : Option String) : Prop :=
  written = some stored ∧ ∀ text, stored = some text → validateBoundIps platform text = .ok ()

/-- Each key is bound to what it was bound to, or to what was written, of which
every entry was accepted. -/
def BoundAsWritten (platform : Platform) (written : Option (Option String))
    (before after : Database) : Prop :=
  ∀ key' ∈ after.apiKeys,
    (∃ key ∈ before.apiKeys, key.id = key'.id ∧ key.boundIps = key'.boundIps) ∨
      AcceptedBinding platform written key'.boundIps

section Texts

variable {platform : Platform} {stored : Option String} {key record : ApiKey}

/-- What is accepted when a text is written is that each of its entries names a
network. -/
theorem validateBoundIps_ok {text : String} :
    validateBoundIps platform text = .ok () ↔ BindingParses platform (some text) := by
  unfold validateBoundIps BindingParses
  cases hbad : (listEntries text).find? fun cidr => (platform.parseNetwork cidr).isNone with
  | none =>
    simp only [true_iff]
    intro entry hentry
    have hgood := List.find?_eq_none.mp hbad entry hentry
    exact Option.isSome_iff_ne_none.mpr (by simpa using hgood)
  | some cidr =>
    refine iff_of_false nofun fun hall => ?_
    have hnone := List.find?_some hbad
    have hsome := hall cidr (List.mem_of_find?_eq_some hbad)
    simp_all

/-- An empty text has no entries. -/
theorem bindingParses_none : BindingParses platform none := by
  intro entry hentry
  have hempty : listEntries "" = [] := by decide
  rw [show (none : Option String).getD "" = "" from rfl, hempty] at hentry
  cases hentry

theorem exists_mapM_of_isSome {α β : Type} {f : α → Option β} {as : List α}
    (h : ∀ a ∈ as, (f a).isSome = true) : ∃ bs, as.mapM f = some bs := by
  refine ⟨as.filterMap f, mapM_eq_some_iff.mpr ?_⟩
  induction as with
  | nil => rfl
  | cons a as ih =>
    obtain ⟨ha, has⟩ := List.forall_mem_cons.mp h
    obtain ⟨b, hb⟩ := Option.isSome_iff_exists.mp ha
    rw [List.map_cons, hb, List.filterMap_cons_some hb, List.map_cons, ih has]

/-- Reading a text back succeeds if and only if every entry names a network, and
then enforces the networks that the entries name. -/
theorem boundNetworks_iff :
    BindingParses platform key.boundIps ↔ ∃ networks, boundNetworks platform key = some networks ∧
      (listEntries (key.boundIps.getD "")).map platform.parseNetwork = networks.map some := by
  constructor
  · intro h
    obtain ⟨networks, hnetworks⟩ := exists_mapM_of_isSome h
    exact ⟨networks, hnetworks, boundNetworks_parse.mp hnetworks⟩
  · rintro ⟨networks, -, hparse⟩ entry hentry
    have hmem := List.mem_map_of_mem (f := platform.parseNetwork) hentry
    rw [hparse] at hmem
    obtain ⟨net, -, hnet⟩ := List.mem_map.mp hmem
    rw [← hnet, Option.isSome_some]

theorem guardNetwork_of_parses {clientIp : IpAddr} (h : BindingParses platform key.boundIps) :
    guardNetwork platform key clientIp ≠ .error .internal := by
  obtain ⟨networks, hnetworks, -⟩ := boundNetworks_iff.mp h
  rw [guardNetwork, hnetworks]
  dsimp only
  split <;> nofun

end Texts

/-! ### What a request may write -/

/-- What is written for the networks of a key was accepted. -/
def BindsAs (platform : Platform) (written : Option (Option String)) : ∀ β, Op β → Prop
  | _, .db (.insertApiKey row) => AcceptedBinding platform written row.boundIps
  | _, .db (.updateApiKey _ u) => ∀ stored, u.boundIps = some stored →
    AcceptedBinding platform written stored
  | _, _ => True

section Writing

variable {platform : Platform} {written : Option (Option String)} {before after db : Database}

theorem boundAsWritten_of_eq (h : after.apiKeys = before.apiKeys) :
    BoundAsWritten platform written before after :=
  fun key' hkey' => .inl ⟨key', h ▸ hkey', rfl, rfl⟩

theorem BoundAsWritten.trans (h : BoundAsWritten platform written before after)
    (h' : BoundAsWritten platform written after db) :
    BoundAsWritten platform written before db := by
  intro key' hkey'
  rcases h' key' hkey' with ⟨key, hkey, hid, hbound⟩ | haccepted
  · rcases h key hkey with ⟨first, hfirst, hid', hbound'⟩ | haccepted
    · exact .inl ⟨first, hfirst, hid'.trans hid, hbound'.trans hbound⟩
    · exact .inr (hbound ▸ haccepted)
  · exact .inr haccepted

theorem BoundAsWritten.parses (h : BoundAsWritten platform written before after)
    (hbefore : ∀ key ∈ before.apiKeys, BindingParses platform key.boundIps) :
    ∀ key ∈ after.apiKeys, BindingParses platform key.boundIps := by
  intro key' hkey'
  rcases h key' hkey' with ⟨key, hkey, -, hbound⟩ | ⟨-, haccepted⟩
  · exact hbound ▸ hbefore key hkey
  · cases hstored : key'.boundIps with
    | none => exact bindingParses_none
    | some text => exact validateBoundIps_ok.mp (haccepted text hstored)

/-- A statement that does not write the key table binds no key anew. -/
theorem bindsAs_of_writes {W : List Write} (hinsert : .insertApiKey ∉ W)
    (hupdate : .updateApiKey ∉ W) {β : Type} {q : Op β} (hq : WritesAmong W β q) :
    BindsAs platform written β q := by
  cases q with
  | db s =>
    cases s with
    | insertApiKey row => exact absurd (hq .insertApiKey rfl) hinsert
    | updateApiKey id u => exact absurd (hq .updateApiKey rfl) hupdate
    | _ => trivial
  | _ => trivial

/-- One statement. -/
theorem BindsAs.exec {β : Type} {q : Op β} (hq : BindsAs platform written β q) (w : World) :
    BoundAsWritten platform written w.db (Op.exec β q w).2.db := by
  rw [Op.exec_db]
  cases q with
  | db s =>
    cases s with
    | insertApiKey row =>
      change BoundAsWritten platform written w.db (w.db.insertApiKey row).2
      unfold Database.insertApiKey
      split
      · exact boundAsWritten_of_eq rfl
      · intro key' hkey'
        rcases List.mem_append.mp hkey' with hold | hnew
        · exact .inl ⟨key', hold, rfl, rfl⟩
        · obtain rfl := List.mem_singleton.mp hnew
          exact .inr hq
    | updateApiKey id u =>
      change BoundAsWritten platform written w.db (w.db.updateApiKey id u).2
      unfold Database.updateApiKey
      split
      · exact boundAsWritten_of_eq rfl
      · split
        · exact boundAsWritten_of_eq rfl
        · intro key' hkey'
          obtain ⟨key, hkey, rfl⟩ := List.mem_map.mp hkey'
          split
          · cases hbound : u.boundIps with
            | none =>
              refine .inl ⟨key, hkey, rfl, ?_⟩
              change key.boundIps = u.boundIps.getD key.boundIps
              rw [hbound, Option.getD_none]
            | some stored =>
              refine .inr ?_
              change AcceptedBinding platform written (u.boundIps.getD key.boundIps)
              rw [hbound, Option.getD_some]
              exact hq stored hbound
          · exact .inl ⟨key, hkey, rfl, rfl⟩
    | deleteApiKeys c =>
      intro key' hkey'
      exact .inl ⟨key', List.mem_of_mem_filter hkey', rfl, rfl⟩
    | _ => exact boundAsWritten_of_eq (Stmt.exec_agree (t := .apiKeys) _ _ (by
        simp [Stmt.write?, Write.tables]))
  | _ => exact boundAsWritten_of_eq rfl

end Writing

section Handlers

variable {ctx : Context} {key target : ApiKey} {platform : Platform}
  {written : Option (Option String)} {α : Type}

theorem checkField_ok {field : Option α} {check : α → Except AppError Unit} :
    checkField field check = .ok () ↔ ∀ value, field = some value → check value = .ok () := by
  cases field with
  | none => simp [checkField]
  | some value => simp [checkField]

theorem validateCreateApiKey_boundIps {payload : CreateApiKeyPayload}
    (h : validateCreateApiKey platform key payload = .ok ()) :
    ∀ text, payload.boundIps = some text → validateBoundIps platform text = .ok () := by
  simp only [validateCreateApiKey, Except.bind_eq_ok_iff] at h
  obtain ⟨_, -, _, -, _, -, _, -, _, hfield, -⟩ := h
  exact checkField_ok.mp hfield

theorem validateUpdateApiKey_boundIps {payload : UpdateApiKeyPayload}
    (h : validateUpdateApiKey platform key target payload = .ok ()) :
    ∀ text, payload.boundIps = some text → validateBoundIps platform text = .ok () := by
  simp only [validateUpdateApiKey, Except.bind_eq_ok_iff] at h
  obtain ⟨_, -, _, -, _, -, _, -, _, hfield, -⟩ := h
  exact checkField_ok.mp hfield

/-- What does not write the key table binds no key anew. -/
theorem binds_rest {W : List Write} {p : Handler α} (hp : p.Emits (WritesAmong W))
    (hW : .insertApiKey ∉ W ∧ .updateApiKey ∉ W) : p.Emits (BindsAs platform written) :=
  hp.mono fun _ _ => bindsAs_of_writes hW.1 hW.2

theorem binds_sql {s : Stmt α} (hs : BindsAs platform written _ (.db s)) :
    (sql s).Emits (BindsAs platform written) :=
  ⟨hs, fun _ => Program.emits_ofExcept _⟩

theorem createApiKey_binds (payload : CreateApiKeyPayload) :
    (createApiKey ctx key payload).Emits
      (BindsAs ctx.state.platform (some payload.boundIps)) := by
  refine Program.emits_ofExcept_bind fun _ hvalid => .bind (Program.emits_ofExcept _) fun pair =>
    .bind (binds_sql ⟨rfl, validateCreateApiKey_boundIps hvalid⟩) fun _ => ?_
  exact binds_rest ((createAuditLog_writes (W := [.insertAuditLog]) (by decide) _ _ _ _ _ _).bind
    fun _ => trivial) (by decide)

theorem updateApiKey_binds (id : Uuid) (payload : UpdateApiKeyPayload) :
    (updateApiKey ctx key id payload).Emits
      (BindsAs ctx.state.platform (payload.boundIps.map some)) := by
  refine .bind (Program.emits_ofExcept _) fun _ => .bind (binds_rest (W := [])
    (loadAdministrableKey_writes _ _) (by decide)) fun target => Program.emits_ofExcept_bind
      fun _ hvalid => .bind (binds_sql ?_) fun _ => ?_
  · intro stored hstored
    refine ⟨hstored, fun text htext => ?_⟩
    subst htext
    obtain ⟨named, hnamed, hsome⟩ := Option.map_eq_some_iff.mp hstored
    obtain rfl := Option.some.inj hsome
    exact validateUpdateApiKey_boundIps hvalid _ hnamed
  · exact binds_rest ((createAuditLog_writes (W := [.insertAuditLog]) (by decide) _ _ _ _ _ _).bind
      fun _ => buildApiKeySummary_writes _) (by decide)

/-- A reissue writes no networks. -/
theorem reissued_binds {id : Uuid} {u : ApiKeyUpdate} {action : String}
    {resource details : Option String} {draw : Nat} {a : α} (hu : u.boundIps = none) :
    ((sql (.updateApiKey id u)).bind fun _ =>
      (createAuditLog ctx key draw action resource details).bind fun _ =>
        (.pure a : Handler α)).Emits (BindsAs platform written) := by
  refine .bind (binds_sql fun stored hstored => ?_) fun _ => ?_
  · rw [hu] at hstored
    cases hstored
  · exact binds_rest ((createAuditLog_writes (W := [.insertAuditLog]) (by decide) _ _ _ _ _ _).bind
      fun _ => trivial) (by decide)

theorem handleAdmin_binds (ctx : Context) (key : ApiKey) (request : AdminRequest) :
    (handleAdmin ctx key request).Emits (BindsAs ctx.state.platform request.binding) := by
  cases request with
  | createApiKey payload => exact .map _ (createApiKey_binds payload)
  | updateApiKey id payload => exact .map _ (updateApiKey_binds id payload)
  | rotateApiKey id =>
    exact .map _ (.bind (binds_rest (W := []) (loadReissuableKey_writes _ _ _) (by decide)) fun _ =>
      .bind (Program.emits_ofExcept _) fun _ => reissued_binds rfl)
  | regenerateKey id =>
    exact .map _ (.bind (binds_rest (W := []) (loadReissuableKey_writes _ _ _) (by decide)) fun _ =>
      reissued_binds rfl)
  | regenerateSecret id =>
    exact .map _ (.bind (binds_rest (W := []) (loadReissuableKey_writes _ _ _) (by decide)) fun _ =>
      .bind (Program.emits_ofExcept _) fun _ => reissued_binds rfl)
  | _ => exact binds_rest (handleAdmin_writes ctx key _) (by simp [AdminRequest.writes])

theorem serve_binds (ctx : Context) (clock : AuthClock) (req : Request) :
    (serve ctx clock req).Emits (BindsAs ctx.state.platform req.binding) := by
  cases req with
  | admin http request =>
    change (((authMiddleware ctx.state clock ctx.clientIp http).bind fun key =>
      .pure (Authenticated.admin key request)).bind (Authenticated.handle ctx)).Emits _
    rw [Program.bind_assoc]
    exact .bind (binds_rest (W := []) (.bind (emits_orElse _ _) fun _ =>
      authenticateBearerKey_writes _ _ _ _ _ _) (by decide)) fun key =>
        .map _ (handleAdmin_binds ctx key request)
  | invoke inv =>
    change (((invocationAuthMiddleware ctx.state clock ctx.clientIp inv.toHttp).bind fun key =>
      .pure (Authenticated.invoke key inv)).bind (Authenticated.handle ctx)).Emits _
    rw [Program.bind_assoc]
    exact .bind (binds_rest (W := []) (invocationAuthMiddleware_writes _ _ _ _) (by decide))
      fun key => .map _ (binds_rest (handleInvocation_writes ctx inv key) (by decide))

/-- One request, whoever makes it. -/
theorem serve_boundAsWritten (ctx : Context) (clock : AuthClock) (req : Request) (w : World) :
    BoundAsWritten ctx.state.platform req.binding w.db
      ((serve ctx clock req).run Op.exec w).2.db :=
  ((serve_binds ctx clock req).mono fun _ _ hq w => hq.exec w).run_rel
    (R := fun s t : World => BoundAsWritten ctx.state.platform req.binding s.db t.db)
    (fun _ => boundAsWritten_of_eq rfl) (fun h h' => h.trans h') w

end Handlers

section Runs

variable {state : AppState} {start : Startup} {w₀ w : World}

/-- After the first start there is the master, bound as its surroundings say. -/
theorem boot_apiKeys
    (hboot : (boot state start).run Op.exec (startProcess state start .empty) = (.ok (), w₀)) :
    ∃ row, w₀.db.apiKeys = [row] ∧ row.boundIps = some start.boundIps := by
  simp only [boot, Program.bind_eq, Program.run_bind_eq_ok_iff] at hboot
  obtain ⟨_, v, hmint, hpin⟩ := hboot
  obtain ⟨_, -, -, rfl⟩ := pinAtBoot_ok hpin
  cases hrow : masterRow state start with
  | error e =>
    simp [bootstrapMasterKey, Program.run_bind, Stmt.exec, startProcess, Database.empty,
      Except.mapError, Database.orderApiKeys, hrow] at hmint
  | ok row =>
    simp [bootstrapMasterKey, Program.run_bind, Stmt.exec, startProcess, Database.empty,
      Except.mapError, Database.orderApiKeys, hrow, Database.insertApiKey] at hmint
    subst hmint
    refine ⟨row, rfl, ?_⟩
    simp only [masterRow, Except.bind_eq_ok_iff] at hrow
    obtain ⟨_, -, hrow⟩ := hrow
    cases hrow
    rfl

/-- Whose identity is proven is a row of the table, but for its mastery. -/
theorem proveIdentity_ok {clock : AuthClock} {presentedKey : String} {hook : Option Hook}
    {req : HttpRequest} {key : ApiKey} {t : World}
    (h : (proveIdentity state clock presentedKey hook req).run Op.exec w = (.ok key, t)) :
    ∃ record ∈ w.db.apiKeys, EffectivePrincipal record key := by
  simp only [proveIdentity, Program.bind_eq, Program.run_bind_eq_ok_iff, Program.run_ofExcept,
    run_selectByHash, authenticatePin_run] at h
  obtain ⟨_, w₁, htimestamp, _, _, hfound, record, _, hrecord, _, _, hpin, _, _, -, hkey⟩ := h
  obtain ⟨-, rfl⟩ := Prod.mk.inj htimestamp
  cases hfound
  cases hpin
  cases hkey
  cases hrow : w.db.apiKeys.find?
      (fun k => k.keyHash == hashKey state.platform.prim presentedKey) with
  | none => simp [hrow, orElse] at hrecord
  | some row =>
    simp only [hrow, orElse, Program.run_pure, Prod.mk.injEq, Except.ok.injEq] at hrecord
    obtain ⟨rfl, rfl⟩ := hrecord
    exact ⟨row, List.mem_of_find?_eq_some hrow, w.principal_effective row⟩

/-- Every key is held to the networks that the entries of its text name, and no
caller whose identity is proven is told that they could not be read. -/
structure BindingsStand (state : AppState) (w : World) : Prop where
  enforced : ∀ key ∈ w.db.apiKeys, ∃ networks,
    (listEntries (key.boundIps.getD "")).map state.platform.parseNetwork = networks.map some ∧
    boundNetworks state.platform key = some networks ∧
    ∀ clientIp, guardNetwork state.platform key clientIp = .ok () ↔
      networks = [] ∨ ∃ net ∈ networks, net clientIp = true
  answered : ∀ clock presentedKey clientIp hook req key t,
    (proveIdentity state clock presentedKey hook req).run Op.exec w = (.ok key, t) →
      ((authenticateBearerKey state clock presentedKey clientIp hook req).run Op.exec w).1 ≠
        .error .internal

/-- Any requests. -/
def anyRequest : RequestCondition := fun _ _ _ _ => True

/-- In every world that requests lead to, keys are held to what was written, and
every request writes what was accepted. -/
def BindingsKept (state : AppState) (w₀ : World) : Prop :=
  (∀ w, Runs state anyRequest w₀ w → BindingsStand state w) ∧
    ∀ w, Runs state anyRequest w₀ w → ∀ ctx clock req, ctx.state = state →
      BoundAsWritten state.platform req.binding w.db ((serve ctx clock req).run Op.exec w).2.db

/-- In every run from the first start on, what keys are bound to was accepted
when it was written, reads back as the networks that were accepted, and never
fails to, if and only if every entry that the first start found in its
surroundings names a network. -/
theorem bindings_kept_iff
    (hboot : (boot state start).run Op.exec (startProcess state start .empty) = (.ok (), w₀)) :
    BindingsKept state w₀ ↔
      ∀ entry ∈ listEntries start.boundIps, (state.platform.parseNetwork entry).isSome = true := by
  obtain ⟨row, hrows, hbound⟩ := boot_apiKeys hboot
  have hreach : Reachable state w₀ := .start start hboot
  have hwritten : ∀ w, Runs state anyRequest w₀ w → ∀ ctx clock req, ctx.state = state →
      BoundAsWritten state.platform req.binding w.db
        ((serve ctx clock req).run Op.exec w).2.db := by
    rintro w - ctx clock req rfl
    exact serve_boundAsWritten ctx clock req w
  constructor
  · rintro ⟨hstand, -⟩
    obtain ⟨networks, hentries, hnetworks, -⟩ :=
      (hstand w₀ .refl).enforced row (by rw [hrows]; simp)
    have hparses := boundNetworks_iff.mpr ⟨networks, hnetworks, hentries⟩
    rwa [hbound] at hparses
  · intro hsubnet
    refine ⟨fun w hrun => ?_, hwritten⟩
    have hall : ∀ key ∈ w.db.apiKeys, BindingParses state.platform key.boundIps := by
      refine hrun.invariant (J := fun w => ∀ key ∈ w.db.apiKeys,
        BindingParses state.platform key.boundIps) hreach ?_ ?_
      · intro key hkey
        rw [hrows, List.mem_singleton] at hkey
        rw [hkey, hbound]
        exact hsubnet
      · intro w ctx clock req _ hstate _ hall
        subst hstate
        exact (serve_boundAsWritten ctx clock req w).parses hall
    refine ⟨fun key hkey => ?_, ?_⟩
    · obtain ⟨networks, hnetworks, hentries⟩ := boundNetworks_iff.mp (hall key hkey)
      refine ⟨networks, hentries, hnetworks, fun clientIp => ?_⟩
      simp only [guardNetwork_ok, hnetworks, Option.some.injEq, exists_eq_left']
    intro clock presentedKey clientIp hook req key t hproven
    obtain ⟨record, hrecord, hkey⟩ := proveIdentity_ok hproven
    have hparses : BindingParses state.platform key.boundIps := by
      rcases hkey with rfl | rfl
      · exact hall _ hrecord
      · exact hall record hrecord
    rw [authenticateBearerKey_eq, Program.run_bind_ok hproven]
    cases hnetwork : guardNetwork state.platform key clientIp with
    | ok _ => exact nofun
    | error e =>
      intro hinternal
      obtain rfl : e = .internal := Except.error.inj hinternal
      exact guardNetwork_of_parses hparses hnetwork

end Runs

section Sample

open Sample

/-- With nothing in its surroundings, the first start binds the master to both
families, and so to what reads back. -/
theorem bindings_kept_booted : BindingsKept state booted :=
  (bindings_kept_iff boot_start).mpr (by decide)

/-- A prefix that is too long for its family. -/
def misboundStart : Startup := { start with bootstrapSubnet := some "10.0.0.0/33" }

def misbound : World :=
  worldOf { Database.empty with
    apiKeys := [{ Sample.masterRow with boundIps := some "10.0.0.0/33" }] } []

/-- A first start takes such a prefix; from then on the master is told of an
internal error, whatever it asks. -/
theorem misbound_master_refused :
    (boot state misboundStart).run Op.exec (startProcess state misboundStart .empty) =
        (.ok (), misbound) ∧
      ¬BindingsKept state misbound ∧
      ((authenticateBearerKey state clock masterKey (.v4 0) none (bearer "/keys" masterKey)).run
        Op.exec misbound).1 = .error .internal := by
  refine ⟨Prod.ext (by decide +kernel) (by decide +kernel), fun hall => ?_, by decide +kernel⟩
  obtain ⟨networks, -, hnetworks, -⟩ := (hall.1 misbound .refl).enforced _ List.mem_cons_self
  have hunread : (boundNetworks state.platform
      { Sample.masterRow with boundIps := some "10.0.0.0/33" }).isSome = false := by decide
  rw [hnetworks] at hunread
  cases hunread

end Sample

end HookExecutor
