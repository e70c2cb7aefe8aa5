import HookExecutor.Verification.Reads
import HookExecutor.Verification.SignedRequests

/-!
# The network check comes last

Who calls is settled before where the call comes from is looked at. Up to that
point nothing reads what networks keys are bound to: two worlds that differ in
it only are taken through the same checks, to the same refusal and the same
replay guard. Past that point the caller's address is inside a network the key
is bound to, unless it is bound to none, whoever's key it is.
-/

namespace HookExecutor

open Text Crypto

section Identity

variable (state : AppState) (clock : AuthClock) (presentedKey : String) (hook : Option Hook)
  (req : HttpRequest)

/-- What is checked of a presented key before the caller's address is. -/
def proveIdentity : Handler ApiKey := do
  let presentedTimestamp ← .ofExcept (prevalidateTimestampHeader req.headers
    state.config.signatureMaxAgeSeconds clock.prevalidatedAt)
  let found ← List.head? <$>
    sql (.selectApiKeys (.keyHashEq (hashKey state.platform.prim presentedKey)) .unordered)
  let record ← orElse found (.unauthorized "Invalid API Key")
  let key ← authenticatePin record
  checkSignature state clock req hook key presentedTimestamp
  return key

/-- Only a key whose identity is proven gets to the network check. -/
theorem authenticateBearerKey_eq (clientIp : IpAddr) :
    authenticateBearerKey state clock presentedKey clientIp hook req =
      (proveIdentity state clock presentedKey hook req).bind fun key =>
        (Program.ofExcept (guardNetwork state.platform key clientIp)).bind fun _ => .pure key := by
  simp only [authenticateBearerKey, proveIdentity, Program.bind_eq, Program.pure_eq,
    Program.bind_assoc]
  rfl

/-- The caller proves whose key it presents. -/
def ProvesIdentity (w : World) : Prop :=
  ∃ key t, (proveIdentity state clock presentedKey hook req).run Op.exec w = (.ok key, t)

end Identity

/-- A traversal that succeeds has a result for each element, in order. -/
theorem mapM_eq_some_iff {α β : Type} {f : α → Option β} {as : List α} {bs : List β} :
    as.mapM f = some bs ↔ as.map f = bs.map some := by
  induction as generalizing bs with
  | nil => cases bs <;> simp
  | cons a as ih =>
    rw [List.mapM_cons, List.map_cons]
    cases ha : f a with
    | none => cases bs <;> simp
    | some b =>
      cases hrest : as.mapM f with
      | none =>
        cases bs with
        | nil => simp
        | cons b' bs =>
          simp only [Option.pure_def, Option.bind_eq_bind, Option.bind_some, Option.bind_none,
            reduceCtorEq, List.map_cons, List.cons.injEq, Option.some.injEq, false_iff, not_and]
          intro _ hmap
          rw [ih.mpr hmap] at hrest
          cases hrest
      | some rest =>
        cases bs with
        | nil => simp
        | cons b' bs =>
          rw [List.map_cons, List.cons.injEq, ← ih, hrest]
          simp

/-! ### Worlds without their bindings -/

def ApiKey.unbound (key : ApiKey) : ApiKey := { key with boundIps := none }

/-- A world whose keys are bound to no network. -/
def World.unbound (w : World) : World :=
  { w with db := { w.db with apiKeys := w.db.apiKeys.map ApiKey.unbound } }

/-- Two worlds that differ in the networks keys are bound to, if at all. -/
def SameButBindings (v w : World) : Prop := v.unbound = w.unbound

namespace World

variable (w : World) (key : ApiKey)

theorem soleMaster_unbound : w.unbound.db.soleMaster = w.db.soleMaster := by
  have hfilter : w.unbound.db.apiKeys.filter (·.isMaster) =
      (w.db.apiKeys.filter (·.isMaster)).map ApiKey.unbound := List.filter_map
  unfold Database.soleMaster
  rw [hfilter]
  generalize w.db.apiKeys.filter (·.isMaster) = masters
  match masters with
  | [] => rfl
  | [_] => rfl
  | _ :: _ :: _ => rfl

theorem masterIdentity_unbound : w.unbound.masterIdentity = w.masterIdentity := by
  unfold masterIdentity
  rw [soleMaster_unbound]
  rfl

theorem principal_unbound : w.unbound.principal key.unbound = (w.principal key).unbound := by
  unfold principal
  rw [masterIdentity_unbound]
  change (if key.isMaster = true ∧ w.masterIdentity ≠ some key.id then
    { key.unbound with isMaster := false } else key.unbound) = _
  split <;> rfl

theorem find_unbound (hash : String) :
    w.unbound.db.apiKeys.find? (fun k => k.keyHash == hash) =
      (w.db.apiKeys.find? fun k => k.keyHash == hash).map ApiKey.unbound :=
  List.find?_map ..

end World

section Runs

variable {state : AppState} {clock : AuthClock} {presentedKey : String} {hook : Option Hook}
  {req : HttpRequest} {v w : World}

/-- A signature is checked against the guard and against nothing else that is
shared. -/
theorem checkSignature_run_unbound (key : ApiKey) (timestamp : Option String) (w : World) :
    (checkSignature state clock req hook key.unbound timestamp).run Op.exec w.unbound =
      (((checkSignature state clock req hook key timestamp).run Op.exec w).1,
        ((checkSignature state clock req hook key timestamp).run Op.exec w).2.unbound) := by
  change (checkSignature state clock req hook key timestamp).run Op.exec w.unbound = _
  unfold checkSignature
  cases req.headers.getStr signatureHeader with
  | none => simp only [Program.run_require]
  | some signature =>
    simp only [Program.bind_eq, Program.run_bind, Program.run_ofExcept]
    cases verifyKeySignature state clock req hook key timestamp signature with
    | error e => rfl
    | ok digest => simp only [Program.run_ask, Program.run_require, Op.exec]; rfl

variable (state clock presentedKey hook req) in
/-- The identity is settled without what keys are bound to. -/
theorem proveIdentity_run_unbound (w : World) :
    (proveIdentity state clock presentedKey hook req).run Op.exec w.unbound =
      (((proveIdentity state clock presentedKey hook req).run Op.exec w).1.map ApiKey.unbound,
        ((proveIdentity state clock presentedKey hook req).run Op.exec w).2.unbound) := by
  simp only [proveIdentity, Program.bind_eq, Program.pure_eq, Program.run_bind,
    Program.run_ofExcept, run_selectByHash, run_orElse]
  cases prevalidateTimestampHeader req.headers state.config.signatureMaxAgeSeconds
      clock.prevalidatedAt with
  | error e => rfl
  | ok timestamp =>
    dsimp only
    rw [World.find_unbound]
    cases w.db.apiKeys.find? fun k => k.keyHash == hashKey state.platform.prim presentedKey with
    | none => rfl
    | some record =>
      simp only [Option.map_some, Option.elim_some, authenticatePin_run, World.principal_unbound,
        World.masterIdentity_unbound]
      have hpinned : ({ w.unbound with pinned := if record.unbound.isMaster then w.masterIdentity
            else w.unbound.pinned } : World) =
          ({ w with pinned := if record.isMaster then w.masterIdentity else w.pinned } :
            World).unbound := rfl
      rw [hpinned, checkSignature_run_unbound]
      rcases (checkSignature state clock req hook (w.principal record) timestamp).run Op.exec
        { w with pinned := if record.isMaster then w.masterIdentity else w.pinned } with
        ⟨_ | _, t⟩ <;> rfl

theorem unbound_replay (w : World) : w.unbound.replay = w.replay := rfl

/-- Whose identity is not proven in one world proves none in the other, by the
same refusal. -/
theorem proveIdentity_alike (hsame : SameButBindings v w) {e : AppError} {t : World}
    (h : (proveIdentity state clock presentedKey hook req).run Op.exec v = (.error e, t)) :
    ∃ t', (proveIdentity state clock presentedKey hook req).run Op.exec w = (.error e, t') ∧
      t'.replay = t.replay := by
  have hv := proveIdentity_run_unbound state clock presentedKey hook req v
  have hw := proveIdentity_run_unbound state clock presentedKey hook req w
  rw [h, hsame] at hv
  rw [hv] at hw
  cases hrun : (proveIdentity state clock presentedKey hook req).run Op.exec w with
  | mk r t' =>
    rw [hrun] at hw
    obtain ⟨hr, ht⟩ := Prod.mk.inj hw
    cases r with
    | ok key => cases hr
    | error e' =>
      obtain rfl : e = e' := Except.error.inj hr
      exact ⟨t', rfl, by rw [← unbound_replay t', ← ht, unbound_replay]⟩

theorem authenticateBearerKey_unproven {clientIp : IpAddr} {e : AppError} {t : World}
    (h : (proveIdentity state clock presentedKey hook req).run Op.exec w = (.error e, t)) :
    (authenticateBearerKey state clock presentedKey clientIp hook req).run Op.exec w =
      (.error e, t) := by
  rw [authenticateBearerKey_eq, Program.run_bind_error h]

theorem exists_error_of_not_proves
    (h : ¬ProvesIdentity state clock presentedKey hook req w) :
    ∃ e t, (proveIdentity state clock presentedKey hook req).run Op.exec w = (.error e, t) := by
  cases hrun : (proveIdentity state clock presentedKey hook req).run Op.exec w with
  | mk r t =>
    cases r with
    | ok key => exact absurd ⟨key, t, hrun⟩ h
    | error e => exact ⟨e, t, rfl⟩

theorem boundNetworks_parse {platform : Platform} {key : ApiKey}
    {networks : List (IpAddr → Bool)} :
    boundNetworks platform key = some networks ↔
      (listEntries (key.boundIps.getD "")).map platform.parseNetwork = networks.map some :=
  mapM_eq_some_iff

/-- A key that names networks is let through from inside one of them only. -/
theorem guardNetwork_inside {platform : Platform} {key : ApiKey} {clientIp : IpAddr}
    (h : guardNetwork platform key clientIp = .ok ())
    (hbound : listEntries (key.boundIps.getD "") ≠ []) :
    ∃ entry ∈ listEntries (key.boundIps.getD ""), ∃ net,
      platform.parseNetwork entry = some net ∧ net clientIp = true := by
  obtain ⟨networks, hnetworks, hinside⟩ := guardNetwork_ok.mp h
  have hparse := boundNetworks_parse.mp hnetworks
  have hne : networks ≠ [] := by
    rintro rfl
    exact hbound (List.map_eq_nil_iff.mp hparse)
  obtain ⟨net, hnet, hin⟩ := hinside.resolve_left hne
  have hmem : some net ∈ (listEntries (key.boundIps.getD "")).map platform.parseNetwork := by
    rw [hparse]
    exact List.mem_map_of_mem hnet
  obtain ⟨entry, hentry, hparsed⟩ := List.mem_map.mp hmem
  exact ⟨entry, hentry, net, hparsed, hin⟩

/-- The answer on the invocation routes to a caller that presents a key. -/
theorem invocationAuthMiddleware_run {clientIp : IpAddr}
    (hheader : req.headers.getStr apiKeyHeader = some presentedKey) (w : World) :
    (invocationAuthMiddleware state clock clientIp req).run Op.exec w =
      ((((authenticateBearerKey state clock presentedKey clientIp
            ((hookIdentifierFromPath req.path).bind w.db.resolveLive) req).run Op.exec w).1.mapError
          uniformizeKeyedAuthFailure).map some,
        ((authenticateBearerKey state clock presentedKey clientIp
          ((hookIdentifierFromPath req.path).bind w.db.resolveLive) req).run Op.exec w).2) := by
  have hmapped : ∀ hook : Option Hook,
      ((mapFailure (authenticateBearerKey state clock presentedKey clientIp hook req)
        uniformizeKeyedAuthFailure).bind fun key => .pure (some key)).run Op.exec w =
      ((((authenticateBearerKey state clock presentedKey clientIp hook req).run Op.exec
        w).1.mapError
          uniformizeKeyedAuthFailure).map some,
        ((authenticateBearerKey state clock presentedKey clientIp hook req).run Op.exec w).2) := by
    intro hook
    simp only [mapFailure, Program.bind_eq, Program.run_bind, Program.run_attempt,
      Program.run_ofExcept]
    cases ((authenticateBearerKey state clock presentedKey clientIp hook req).run Op.exec w).1 <;>
      rfl
  simp only [invocationAuthMiddleware, hheader]
  cases hidentifier : hookIdentifierFromPath req.path with
  | none => exact hmapped none
  | some identifier =>
    have hlookup : (Except.toOption <$> (resolveHook identifier).attempt :
      Handler _).run Op.exec w =
        (.ok (w.db.resolveLive identifier), w) := by
      cases hlive : w.db.resolveLive identifier <;>
        simp [Program.run_bind, hlive, Except.toOption]
    rw [Program.bind_eq, Program.run_bind_ok hlookup]
    exact hmapped _

theorem authMiddleware_run {clientIp : IpAddr}
    (hheader : req.headers.getStr apiKeyHeader = some presentedKey) :
    authMiddleware state clock clientIp req =
      authenticateBearerKey state clock presentedKey clientIp none req := by
  rw [authMiddleware, hheader]
  rfl

end Runs

/-- For any request, any two worlds that differ in what keys are bound to, and
any two addresses: a caller that does not prove its identity is refused alike
and leaves the same replay guard, whichever route it takes; and whoever is
accepted is bound to no network, or to one its address is in. -/
theorem authenticate_then_authorise (state : AppState) (clock : AuthClock) (req : HttpRequest)
    (v w : World) (ip ip' : IpAddr) (hsame : SameButBindings v w) :
    (∀ presentedKey hook, ¬ProvesIdentity state clock presentedKey hook req v →
      ∃ e t t',
        (authenticateBearerKey state clock presentedKey ip hook req).run Op.exec v =
          (.error e, t) ∧
        (authenticateBearerKey state clock presentedKey ip' hook req).run Op.exec w =
          (.error e, t') ∧ t'.replay = t.replay) ∧
    (∀ presentedKey, req.headers.getStr apiKeyHeader = some presentedKey →
      ¬ProvesIdentity state clock presentedKey none req v →
      ∃ e t t', (authMiddleware state clock ip req).run Op.exec v = (.error e, t) ∧
        (authMiddleware state clock ip' req).run Op.exec w = (.error e, t') ∧
        t'.replay = t.replay) ∧
    (∀ presentedKey, req.headers.getStr apiKeyHeader = some presentedKey →
      ¬ProvesIdentity state clock presentedKey
        ((hookIdentifierFromPath req.path).bind v.db.resolveLive) req v →
      ∃ e t t', (invocationAuthMiddleware state clock ip req).run Op.exec v = (.error e, t) ∧
        (invocationAuthMiddleware state clock ip' req).run Op.exec w = (.error e, t') ∧
        t'.replay = t.replay) ∧
    ∀ presentedKey hook key t,
      (authenticateBearerKey state clock presentedKey ip hook req).run Op.exec v = (.ok key, t) →
        listEntries (key.boundIps.getD "") = [] ∨
          ∃ entry ∈ listEntries (key.boundIps.getD ""), ∃ net,
            state.platform.parseNetwork entry = some net ∧ net ip = true := by
  have hbearer : ∀ presentedKey hook, ¬ProvesIdentity state clock presentedKey hook req v →
      ∃ e t t',
        (authenticateBearerKey state clock presentedKey ip hook req).run Op.exec v =
          (.error e, t) ∧
        (authenticateBearerKey state clock presentedKey ip' hook req).run Op.exec w =
          (.error e, t') ∧ t'.replay = t.replay := by
    intro presentedKey hook hunproven
    obtain ⟨e, t, hv⟩ := exists_error_of_not_proves hunproven
    obtain ⟨t', hw, hreplay⟩ := proveIdentity_alike hsame hv
    exact ⟨e, t, t', authenticateBearerKey_unproven hv, authenticateBearerKey_unproven hw, hreplay⟩
  refine ⟨hbearer, ?_, ?_, ?_⟩
  · intro presentedKey hheader hunproven
    rw [authMiddleware_run hheader, authMiddleware_run hheader]
    exact hbearer presentedKey none hunproven
  · intro presentedKey hheader hunproven
    have hhooks : w.db.resolveLive = v.db.resolveLive := by
      have hrows : v.db.hooks = w.db.hooks := congrArg (·.db.hooks) hsame
      have hid : w.db.hookWithId = v.db.hookWithId := by
        funext id
        simp only [Database.hookWithId, hrows]
      funext identifier
      simp only [Database.resolveLive, Database.resolve, Database.hookByName, hrows, hid]
    obtain ⟨e, t, t', hv, hw, hreplay⟩ := hbearer presentedKey _ hunproven
    refine ⟨uniformizeKeyedAuthFailure e, t, t', ?_, ?_, hreplay⟩
    · rw [invocationAuthMiddleware_run hheader, hv]
      rfl
    · rw [invocationAuthMiddleware_run hheader, hhooks, hw]
      rfl
  · intro presentedKey hook key t haccepted
    obtain ⟨_, _, _, -, -, -, -, hnetwork⟩ := authenticateBearerKey_ok.mp haccepted
    by_cases hbound : listEntries (key.boundIps.getD "") = []
    · exact .inl hbound
    · exact .inr (guardNetwork_inside hnetwork hbound)

section Sample

open Sample

/-- The parent's unsigned request is refused alike whatever keys are bound to
and wherever it comes from. -/
theorem authenticate_then_authorise_unsigned :
    ∃ e t t',
      (authenticateBearerKey state clock parentKey (.v4 0x7F000001) none
          (bearer "/hooks" parentKey)).run Op.exec withParent = (.error e, t) ∧
        (authenticateBearerKey state clock parentKey (.v4 0x0A000001) none
          (bearer "/hooks" parentKey)).run Op.exec withParent.unbound = (.error e, t') ∧
        t'.replay = t.replay := by
  have hunproven : ¬ProvesIdentity state clock parentKey none (bearer "/hooks" parentKey)
      withParent := by
    rintro ⟨key, t, hrun⟩
    have hnone : ((proveIdentity state clock parentKey none (bearer "/hooks" parentKey)).run
        Op.exec withParent).1.toOption.isSome = false := by decide
    rw [hrun] at hnone
    cases hnone
  exact (authenticate_then_authorise state clock (bearer "/hooks" parentKey) withParent
    withParent.unbound (.v4 0x7F000001) (.v4 0x0A000001) rfl).1 parentKey none hunproven

end Sample

end HookExecutor
