import HookExecutor.Verification.Authentication
import HookExecutor.Verification.Lineage

/-!
# The invariant of a running service

What is true of the database and the pinned identity between any two requests:
the declared constraints hold, lineage is a forest under existing keys, the
pinned identity is the one master row, which has no creator, and no key that
manages keys signs over a template of its own. A statement is *safe* when it
cannot break any of this, and every request only ever makes safe ones.
-/

namespace HookExecutor

/-- A key may have its own template only while it does not manage keys. -/
def ApiKey.SignsByPolicy (key : ApiKey) : Prop :=
  key.canonicalTemplate ≠ some "" ∧ (key.canManageKeys = true → key.canonicalTemplate = none)

structure World.Sound (w : World) : Prop where
  wellFormed : w.db.WellFormed
  lineage : w.db.Lineage
  master : ∃ m ∈ w.db.apiKeys, m.isMaster = true ∧ m.parentKeyId = none ∧ w.pinned = some m.id
  signing : ∀ key ∈ w.db.apiKeys, key.SignsByPolicy

namespace Database

variable {db : Database}

/-- Rows of one identifier are one row. -/
theorem WellFormed.eq_of_id (h : db.WellFormed) {k l : ApiKey} (hk : k ∈ db.apiKeys)
    (hl : l ∈ db.apiKeys) (hid : k.id = l.id) : k = l :=
  List.inj_on_of_nodup_map h.keyIds hk hl hid

theorem WellFormed.hook_eq_of_id (h : db.WellFormed) {g g' : Hook} (hg : g ∈ db.hooks)
    (hg' : g' ∈ db.hooks) (hid : g.id = g'.id) : g = g' :=
  List.inj_on_of_nodup_map h.hookIds hg hg' hid

/-- A row found by its identifier is the row with it. -/
theorem WellFormed.apiKeyById_eq (h : db.WellFormed) {k : ApiKey} (hk : k ∈ db.apiKeys) :
    db.apiKeyById k.id = some k := by
  cases hfound : db.apiKeyById k.id with
  | none =>
    have hnone := List.find?_eq_none.mp hfound k hk
    simp at hnone
  | some l =>
    obtain ⟨hl, hid⟩ := apiKeyById_mem hfound
    rw [h.eq_of_id hl hk hid]

theorem WellFormed.hookWithId_eq (h : db.WellFormed) {g : Hook} (hg : g ∈ db.hooks) :
    db.hookWithId g.id = some g := by
  cases hfound : db.hookWithId g.id with
  | none =>
    have hnone := List.find?_eq_none.mp hfound g hg
    simp at hnone
  | some g' =>
    obtain ⟨hg', hid⟩ := hookWithId_mem hfound
    rw [h.hook_eq_of_id hg' hg hid]

theorem WellFormed.permissionOf_eq (h : db.WellFormed) {p : Permission} (hp : p ∈ db.permissions) :
    db.permissionOf p.apiKeyId p.hookId = some p := by
  cases hfound : db.permissionOf p.apiKeyId p.hookId with
  | none =>
    have hnone := List.find?_eq_none.mp hfound p hp
    simp at hnone
  | some q =>
    obtain ⟨hq, hkey, hhook⟩ := permissionOf_mem hfound
    exact congrArg some (List.inj_on_of_nodup_map h.grants hq hp (Prod.ext hkey hhook))

/-- There is one master at most. -/
theorem WellFormed.master_unique (h : db.WellFormed) {k l : ApiKey} (hk : k ∈ db.apiKeys)
    (hl : l ∈ db.apiKeys) (hkm : k.isMaster = true) (hlm : l.isMaster = true) : k = l :=
  h.eq_of_id hk hl (h.oneMaster k hk l hl hkm hlm)

end Database

/-- Whether a statement, run against this database, keeps the invariant. Only
those on the key table have anything to show. -/
def Stmt.Safe (db : Database) : {β : Type} → Stmt β → Prop
  | _, insertApiKey row =>
    row.isMaster = false ∧ (∃ p ∈ db.keyIds, row.parentKeyId = some p) ∧ row.SignsByPolicy
  | _, updateApiKey id u => ∀ key ∈ db.apiKeys, key.id = id → (u.apply key).SignsByPolicy
  | _, deleteApiKeys c =>
    (∀ key ∈ db.apiKeys, ∀ l ∈ db.apiKeys, key.parentKeyId = some l.id → c.holds l = true →
      c.holds key = true) ∧
    ∀ key ∈ db.apiKeys, key.isMaster = true → c.holds key = false
  | _, _ => True

def Op.Safe (db : Database) : {β : Type} → Op β → Prop
  | _, .db s => s.Safe db
  | _, _ => True

/-- Safe whatever the database: the key table is not written. -/
theorem WritesAmong.safe {W : List Write} (hW : ∀ k ∈ W, Table.apiKeys ∉ k.tables) {β : Type}
    {q : Op β} (hq : WritesAmong W β q) (db : Database) : q.Safe db := by
  cases q with
  | db s =>
    have hs : ∀ k ∈ s.write?, Table.apiKeys ∉ k.tables := fun k hk => hW k (hq k hk)
    cases s with
    | insertApiKey row => simp [Stmt.write?, Write.tables] at hs
    | updateApiKey id u => simp [Stmt.write?, Write.tables] at hs
    | deleteApiKeys c => simp [Stmt.write?, Write.tables] at hs
    | _ => trivial
  | _ => trivial

namespace World

variable {w : World}

/-- The invariant is a matter of the constraints, the key table and the pin. -/
theorem Sound.congr {w' : World} (h : w.Sound) (hwf : w'.db.WellFormed)
    (hkeys : w'.db.apiKeys = w.db.apiKeys) (hpin : w'.pinned = w.pinned) : w'.Sound where
  wellFormed := hwf
  lineage := h.lineage.congr hkeys
  master := by
    obtain ⟨m, hm, hmaster⟩ := h.master
    exact ⟨m, hkeys ▸ hm, hpin ▸ hmaster⟩
  signing := fun key hkey => h.signing key (hkeys ▸ hkey)

theorem Sound.insertApiKey (h : w.Sound) {row : ApiKey}
    (hsafe : (Stmt.insertApiKey row).Safe w.db) :
    ({ w with db := (w.db.insertApiKey row).2 } : World).Sound := by
  have hwf := h.wellFormed.insertApiKey row
  obtain ⟨hmaster, ⟨p, hp, hparent⟩, hsigns⟩ := hsafe
  by_cases hcollides : w.db.apiKeys.any (Database.apiKeyCollides · row) = true
  · exact h.congr hwf (by simp [Database.insertApiKey, hcollides]) rfl
  · have hrun : (w.db.insertApiKey row).2 = { w.db with apiKeys := w.db.apiKeys ++ [row] } := by
      simp [Database.insertApiKey, hcollides]
    have hfresh : row.id ∉ w.db.keyIds := by
      intro hmem
      obtain ⟨k, hk, hid⟩ := List.mem_map.mp hmem
      exact hcollides (List.any_eq_true.mpr ⟨k, hk, by simp [Database.apiKeyCollides, hid]⟩)
    rw [hrun] at hwf ⊢
    refine ⟨hwf, h.lineage.insert hparent hp hfresh, ?_, ?_⟩
    · obtain ⟨m, hm, hrest⟩ := h.master
      exact ⟨m, List.mem_append_left _ hm, hrest⟩
    · intro key hkey
      rcases List.mem_append.mp hkey with hkey | hkey
      · exact h.signing key hkey
      · rw [List.mem_singleton.mp hkey]
        exact hsigns

theorem Sound.updateApiKey (h : w.Sound) {id : Uuid} {u : ApiKeyUpdate}
    (hsafe : (Stmt.updateApiKey id u).Safe w.db) :
    ({ w with db := (w.db.updateApiKey id u).2 } : World).Sound := by
  have hwf := h.wellFormed.updateApiKey id u
  unfold Database.updateApiKey at hwf ⊢
  split
  · exact h
  · split
    · exact h
    case isFalse key hfind hfree =>
      simp only [hfind, hfree] at hwf
      refine ⟨hwf, h.lineage.map ?_ ?_, ?_, ?_⟩
      · intro k
        by_cases hk : k.id = id <;> simp [hk]
      · intro k
        by_cases hk : k.id = id <;> simp [hk]
      · obtain ⟨m, hm, hmaster, hparent, hpin⟩ := h.master
        refine ⟨_, List.mem_map_of_mem hm, ?_, ?_, ?_⟩
        all_goals by_cases hmid : m.id = id <;> simp [hmid, hmaster, hparent, ← hpin] <;>
          simp [hpin, hmid]
      · intro key hkey
        obtain ⟨k, hk, rfl⟩ := List.mem_map.mp hkey
        by_cases hkid : k.id = id
        · simpa [hkid] using hsafe k hk hkid
        · simpa [hkid] using h.signing k hk

theorem Sound.deleteApiKeys (h : w.Sound) {c : ApiKeyCondition}
    (hsafe : (Stmt.deleteApiKeys c).Safe w.db) :
    ({ w with db := (w.db.deleteApiKeys c).2 } : World).Sound where
  wellFormed := h.wellFormed.deleteApiKeys c
  lineage := (h.lineage.filter hsafe.1).congr rfl
  master := by
    obtain ⟨m, hm, hmaster, hrest⟩ := h.master
    exact ⟨m, List.mem_filter.mpr ⟨hm, by simp [hsafe.2 m hm hmaster]⟩, hmaster, hrest⟩
  signing := fun key hkey => h.signing key (List.mem_filter.mp hkey).1

/-- An operation keeps the invariant if its statement is safe. -/
theorem Sound.exec (h : w.Sound) {β : Type} (q : Op β) (hsafe : q.Safe w.db) :
    (Op.exec β q w).2.Sound := by
  cases q with
  | db s =>
    have hother : (∀ k ∈ s.write?, Table.apiKeys ∉ k.tables) →
        ({ w with db := (s.exec w.db).2 } : World).Sound := fun hs =>
      h.congr (Stmt.exec_wellFormed s h.wellFormed) (s.exec_agree (t := .apiKeys) w.db hs) rfl
    cases s with
    | insertApiKey row => exact h.insertApiKey hsafe
    | updateApiKey id u => exact h.updateApiKey hsafe
    | deleteApiKeys c => exact h.deleteApiKeys hsafe
    | _ => exact hother (by simp [Stmt.write?, Write.tables])
  | pinMaster id =>
    refine h.congr h.wellFormed rfl ?_
    obtain ⟨m, -, -, -, hpin⟩ := h.master
    simp [Op.exec, hpin]
  | tryAcquire keyId permits =>
    refine h.congr (by simpa [Op.exec] using h.wellFormed) (by simp [Op.exec]) ?_
    simp only [Op.exec, World.tryAcquire]
    split <;> rfl
  | release permit =>
    refine h.congr (by simpa [Op.exec] using h.wellFormed) (by simp [Op.exec]) ?_
    simp only [Op.exec, World.release]
    split
    · rfl
    · split <;> rfl
  | _ => exact h.congr h.wellFormed rfl rfl

/-- A program that does not write the key table keeps the invariant. -/
theorem Sound.run_of_writes (h : w.Sound) {W : List Write} {α : Type} {p : Handler α}
    (hp : p.Emits (WritesAmong W)) (hW : ∀ k ∈ W, Table.apiKeys ∉ k.tables) :
    (p.run Op.exec w).2.Sound :=
  (hp.mono fun _ _ hq _ hv => hv.exec _ (hq.safe hW _)).run_inv h

/-- A first half that does not write the key table leaves the second to show. -/
theorem Sound.bind (h : w.Sound) {W : List Write} {α β : Type} {p : Handler α}
    {f : α → Handler β} (hp : p.Emits (WritesAmong W)) (hW : ∀ k ∈ W, Table.apiKeys ∉ k.tables)
    (hf : ∀ a t, p.run Op.exec w = (.ok a, t) → t.Sound → ((f a).run Op.exec t).2.Sound) :
    ((p.bind f).run Op.exec w).2.Sound :=
  Program.run_bind_post (J := World.Sound) (h.run_of_writes hp hW) (fun _ ht => ht) hf

end World

/-! ### The principal of a request -/

section Principal

variable {w w' : World} {key record : ApiKey}

/-- Between requests a stored row is its own principal. -/
theorem World.Sound.principal_eq (h : w.Sound) (hrecord : record ∈ w.db.apiKeys) :
    w.principal record = record := by
  obtain ⟨m, hm, hmaster, -, hpin⟩ := h.master
  unfold principal masterIdentity
  refine if_neg ?_
  rintro ⟨hrec, hother⟩
  obtain rfl := h.wellFormed.master_unique hm hrecord hmaster hrec
  simp [hpin] at hother

theorem World.Sound.authenticateBearerKey_mem (h : w.Sound) {state : AppState}
    {clock : AuthClock} {presentedKey : String} {clientIp : IpAddr} {hook : Option Hook}
    {req : HttpRequest} (hrun : (authenticateBearerKey state clock presentedKey clientIp hook
      req).run Op.exec w = (.ok key, w')) : key ∈ w.db.apiKeys := by
  obtain ⟨_, record, _, -, hfound, rfl, -⟩ := authenticateBearerKey_accepts.mp hrun
  have hrecord : record ∈ w.db.apiKeys := List.mem_of_find?_eq_some hfound
  rw [h.principal_eq hrecord]
  exact hrecord

theorem mapFailure_ok {α : Type} {p : Handler α} {f : AppError → AppError} {a : α} :
    (mapFailure p f).run Op.exec w = (.ok a, w') ↔ p.run Op.exec w = (.ok a, w') := by
  simp only [mapFailure, Program.bind_eq, Program.run_bind, Program.run_attempt,
    Program.run_ofExcept]
  cases hp : p.run Op.exec w with
  | mk r t => cases r <;> simp [Except.mapError]

/-- A keyed invocation is authenticated as any other request is, with the hook
its path names, if it names one. -/
theorem invocationAuthMiddleware_keyed {state : AppState} {clock : AuthClock}
    {clientIp : IpAddr} {req : HttpRequest} :
    (invocationAuthMiddleware state clock clientIp req).run Op.exec w = (.ok (some key), w') ↔
      ∃ presentedKey, req.headers.getStr apiKeyHeader = some presentedKey ∧
        (authenticateBearerKey state clock presentedKey clientIp
          ((hookIdentifierFromPath req.path).bind w.db.resolveLive) req).run Op.exec w =
          (.ok key, w') := by
  unfold invocationAuthMiddleware
  generalize hookIdentifierFromPath req.path = identifier
  cases req.headers.getStr apiKeyHeader with
  | none =>
    simp only [Program.bind_eq, Program.pure_eq, Program.run_bind_eq_ok_iff, Program.run_pure,
      reduceCtorEq, false_and, exists_false, iff_false]
    rintro ⟨_, _, _, _, _, _, _, _, _, hret⟩
    simp at hret
  | some presentedKey =>
    simp only [Program.bind_eq, Program.pure_eq, Program.run_bind_eq_ok_iff, Program.run_pure,
      mapFailure_ok, Option.some.injEq, exists_eq_left']
    cases identifier with
    | none =>
      constructor
      · rintro ⟨hook, w₁, hhook, key', w₂, hauth, hret⟩
        cases hhook
        cases hret
        exact hauth
      · exact fun hauth => ⟨none, w, rfl, key, w', hauth, rfl⟩
    | some identifier =>
      have hresolve : (Except.toOption <$> (resolveHook identifier).attempt :
          Handler (Option Hook)).run Op.exec w = (.ok (w.db.resolveLive identifier), w) := by
        simp only [Program.map_eq, Program.run_bind, Program.run_attempt, run_resolveHook,
          Program.run_pure]
        cases w.db.resolveLive identifier <;> rfl
      simp only [hresolve, Option.bind_some]
      constructor
      · rintro ⟨hook, w₁, hhook, key', w₂, hauth, hret⟩
        cases hhook
        cases hret
        exact hauth
      · exact fun hauth => ⟨_, w, rfl, key, w', hauth, rfl⟩

/-- The request as the middleware sees it. -/
def Request.http : Request → HttpRequest
  | .admin http _ => http
  | .invoke inv => inv.toHttp

/-- The live hook an invocation names, as the middleware reads its path. -/
def Request.targetHook (db : Database) : Request → Option Hook
  | .admin _ _ => none
  | .invoke inv => (hookIdentifierFromPath inv.toHttp.path).bind db.resolveLive

theorem authenticate_invoke_ok {ctx : Context} {clock : AuthClock} {inv : Invocation}
    {caller : Option ApiKey} :
    (authenticate ctx clock (.invoke inv)).run Op.exec w = (.ok (.invoke caller inv), w') ↔
      (invocationAuthMiddleware ctx.state clock ctx.clientIp inv.toHttp).run Op.exec w =
        (.ok caller, w') := by
  simp only [authenticate, Program.map_eq, Program.run_bind_eq_ok_iff, Program.run_pure]
  constructor
  · rintro ⟨_, _, hrun, hret⟩
    cases hret
    exact hrun
  · exact fun hrun => ⟨caller, w', hrun, rfl⟩

/-- Whatever the route, a caller with a key went through the same
authentication. -/
theorem authenticate_keyed {ctx : Context} {clock : AuthClock} {req : Request}
    {a : Authenticated} (hrun : (authenticate ctx clock req).run Op.exec w = (.ok a, w'))
    (hcaller : a.caller = some key) :
    ∃ presentedKey, req.http.headers.getStr apiKeyHeader = some presentedKey ∧
      (authenticateBearerKey ctx.state clock presentedKey ctx.clientIp (req.targetHook w.db)
        req.http).run Op.exec w = (.ok key, w') := by
  cases req with
  | admin http request =>
    simp only [authenticate, authMiddleware, Program.map_eq, Program.bind_eq,
      Program.run_bind_eq_ok_iff, Program.run_pure, run_orElse] at hrun
    obtain ⟨key', w₁, ⟨presentedKey, w₂, hheader, hauth⟩, hret⟩ := hrun
    cases hret
    cases hcaller
    obtain ⟨hfound, rfl⟩ := Prod.mk.inj hheader
    refine ⟨presentedKey, ?_, hauth⟩
    cases hkey : http.headers.getStr apiKeyHeader with
    | none => simp [hkey] at hfound
    | some text => simpa [hkey, Request.http] using hfound
  | invoke inv =>
    have hinvoke : a = .invoke (some key) inv := by
      simp only [authenticate, Program.map_eq, Program.run_bind_eq_ok_iff, Program.run_pure] at hrun
      obtain ⟨key', _, -, hret⟩ := hrun
      cases hret
      obtain rfl : key' = some key := hcaller
      rfl
    subst hinvoke
    exact invocationAuthMiddleware_keyed.mp (authenticate_invoke_ok.mp hrun)

/-- The key a request was made by has a row, and that row is the principal. -/
theorem World.Sound.caller_mem (h : w.Sound) {ctx : Context} {clock : AuthClock} {req : Request}
    {a : Authenticated} (hrun : (authenticate ctx clock req).run Op.exec w = (.ok a, w'))
    (hcaller : a.caller = some key) : key ∈ w.db.apiKeys := by
  obtain ⟨presentedKey, -, hbearer⟩ := authenticate_keyed hrun hcaller
  exact h.authenticateBearerKey_mem hbearer

/-- Authentication does not touch the database. -/
theorem authenticate_db {ctx : Context} {clock : AuthClock} {req : Request}
    {r : Except AppError Authenticated} (h : (authenticate ctx clock req).run Op.exec w = (r, w')) :
    w'.db = w.db := by
  have hsame := Handler.run_db_eq (authenticate_writes ctx clock req) w
  rwa [h] at hsame

theorem run_serve {ctx : Context} {clock : AuthClock} {req : Request} {w w₁ : World}
    {a : Authenticated} (hauth : (authenticate ctx clock req).run Op.exec w = (.ok a, w₁)) :
    (serve ctx clock req).run Op.exec w = (a.handle ctx).run Op.exec w₁ :=
  Program.run_bind_ok hauth

theorem World.Sound.authenticate (h : w.Sound) (ctx : Context) (clock : AuthClock)
    (req : Request) : ((authenticate ctx clock req).run Op.exec w).2.Sound :=
  h.run_of_writes (W := []) (authenticate_writes ctx clock req) (by simp)

/-- What is known once a request is through its middleware. -/
theorem World.Sound.authenticated (h : w.Sound) {ctx : Context} {clock : AuthClock}
    {req : Request} {a : Authenticated}
    (hauth : (HookExecutor.authenticate ctx clock req).run Op.exec w = (.ok a, w')) :
    w'.db = w.db ∧ w'.Sound ∧ ∀ key, a.caller = some key → key ∈ w'.db.apiKeys := by
  have hsound := h.authenticate ctx clock req
  have hdb := authenticate_db hauth
  rw [hauth] at hsound
  exact ⟨hdb, hsound, fun key hcaller => hdb ▸ h.caller_mem hauth hcaller⟩

theorem run_serve_admin {ctx : Context} {clock : AuthClock} {http : HttpRequest}
    {request : AdminRequest}
    (hauth : (authenticate ctx clock (.admin http request)).run Op.exec w =
      (.ok (.admin key request), w')) :
    (serve ctx clock (.admin http request)).run Op.exec w =
      (((handleAdmin ctx key request).run Op.exec w').1.map .admin,
        ((handleAdmin ctx key request).run Op.exec w').2) := by
  rw [run_serve hauth]
  exact Program.run_map _ _ _

end Principal

end HookExecutor
