import HookExecutor.Verification.Parties
import HookExecutor.Verification.Reachability
import HookExecutor.Verification.Sample

/-!
# Scope and template under concurrent edits

A key that manages keys has no template of its own. An edit checks that on the
row it read, with its own columns over it, and writes those columns alone. So
one edit that gives a key the scope and another that gives it a template, each
right by what it read, can leave it both.
-/

namespace HookExecutor

/-- The requests that write a key's scope or template. -/
def AdminRequest.WritesScope : AdminRequest → Prop
  | .createApiKey _ | .updateApiKey _ _ => True
  | _ => False

/-- What they may write: rows that sign by policy, and updates that leave the row
they read signing by it. -/
def WritesByPolicy : Heard Op → ∀ β, Op β → Prop
  | _, _, .db (.insertApiKey row) => row.SignsByPolicy
  | h, _, .db (.updateApiKey id u) =>
    ∃ target, ReadKey h id target ∧ (target.SignsByPolicy → (u.apply target).SignsByPolicy)
  | _, β, q => WritesAmong [.insertAuditLog] β q

section Knowledge

open Program

variable {α : Type} {h : Heard Op} {key : ApiKey} {ctx : Context}

theorem allowsAudit_writesByPolicy : AllowsAudit WritesByPolicy := by
  intro h β q hq
  cases q with
  | db s => cases s <;> simp_all [WritesByPolicy, Stmt.write?]
  | _ => trivial

theorem aside_byPolicy {p : Handler α} (hp : p.Emits (WritesAmong [.insertAuditLog])) :
    Ensures WritesByPolicy h p fun _ _ => True :=
  ensures_audited allowsAudit_writesByPolicy hp

theorem newApiKey_signsByPolicy {payload : CreateApiKeyPayload} (pair : Option SigningPair)
    (hvalid : validateCreateApiKey ctx.state.platform key payload = .ok ()) :
    (newApiKey ctx key payload pair).SignsByPolicy := by
  obtain ⟨-, -, hsigning⟩ := validateCreateApiKey_ok hvalid
  exact ⟨nonEmpty_ne_empty _, hsigning⟩

theorem ensures_createApiKey (payload : CreateApiKeyPayload) :
    Ensures WritesByPolicy h (createApiKey ctx key payload) fun _ _ => True := by
  refine Ensures.bind (M := fun _ _ =>
    validateCreateApiKey ctx.state.platform key payload = .ok ())
    (ensures_ofExcept fun _ hvalid => hvalid) fun _ _ _ hvalid => ?_
  refine (aside_byPolicy (emits_ofExcept _)).bind fun _ pair _ _ => ?_
  refine (ensures_sql (P := fun _ _ => True) (newApiKey_signsByPolicy pair hvalid)
    fun _ _ _ => trivial).bind fun _ _ _ _ => ?_
  exact (aside_byPolicy (createAuditLog_writes (by decide) _ _ _ _ _ _)).bind fun _ _ _ _ => trivial

/-- A key that was loaded was read. -/
theorem ensures_loadAdministrableKey {A : Heard Op → ∀ β, Op β → Prop} (hok : AllowsAudit A)
    (id : Uuid) :
    Ensures A h (loadAdministrableKey key id) fun h' target => ReadKey h' id target := by
  refine (ensures_findApiKeyById hok id).bind fun h₁ found _ hfound => ?_
  refine Ensures.bind (M := fun h' target => ReadKey h' id target) (ensures_orElse hfound)
    fun h₂ target _ htarget => ?_
  refine (ensures_audited hok (keyVisibility_writes _ _)).bind fun h₃ _ hsub₃ _ => ?_
  exact (ensures_audited hok (emits_require _ _)).bind fun h₄ _ hsub₄ _ =>
    (htarget.mono hsub₃).mono hsub₄

theorem ensures_updateApiKey (id : Uuid) (payload : UpdateApiKeyPayload) :
    Ensures WritesByPolicy h (updateApiKey ctx key id payload) fun _ _ => True := by
  refine (aside_byPolicy (emits_ofExcept _)).bind fun _ _ _ _ => ?_
  refine (ensures_loadAdministrableKey allowsAudit_writesByPolicy id).bind
    fun h₁ target _ htarget => ?_
  refine Ensures.bind (M := fun _ _ =>
    validateUpdateApiKey ctx.state.platform key target payload = .ok ())
    (ensures_ofExcept fun _ hvalid => hvalid) fun h₂ _ hsub₂ hvalid => ?_
  refine (ensures_sql (P := fun _ _ => True) ⟨target, htarget.mono hsub₂,
    apiKeyChanges_signsByPolicy _ hvalid⟩ fun _ _ _ => trivial).bind fun _ _ _ _ => ?_
  exact (aside_byPolicy (createAuditLog_writes (by decide) _ _ _ _ _ _)).bind fun _ _ _ _ =>
    aside_byPolicy (buildApiKeySummary_writes _)

theorem ensures_writesScope {p : Party} (hwrites : p.request.WritesScope) :
    Ensures WritesByPolicy [] p.program fun _ _ => True := by
  obtain ⟨ctx, key, request⟩ := p
  cases request with
  | createApiKey payload => exact (ensures_createApiKey payload).bind fun _ _ _ _ => trivial
  | updateApiKey id payload => exact (ensures_updateApiKey id payload).bind fun _ _ _ _ => trivial
  | _ => exact hwrites.elim

end Knowledge

/-! ### Runs -/

/-- The same scope and the same template. -/
def ApiKey.SameScope (k k' : ApiKey) : Prop :=
  k'.canManageKeys = k.canManageKeys ∧ k'.canonicalTemplate = k.canonicalTemplate

section Race

variable {ι : Type} [DecidableEq ι]

/-- The event leaves the key with another scope or template than it met. -/
def Rescopes (e : Event Op World ι) (keyId : Uuid) : Prop :=
  ∃ k' ∈ (e.after Op.exec).db.apiKeys, k'.id = keyId ∧
    ∀ k ∈ e.before.db.apiKeys, k.id = keyId → ¬k.SameScope k'

/-- The event asks for an update of the key. -/
def UpdatesKey (e : Event Op World ι) (keyId : Uuid) : Prop :=
  ∃ u answer, e.exchange Op.exec = ⟨_, .db (.updateApiKey keyId u), answer⟩

/-- Nobody moves a key's scope or template between an edit's look at the key and
its write to it. -/
def RescopesApart (log : List (Event Op World ι)) : Prop :=
  ∀ later e mid a before, log = later ++ e :: (mid ++ a :: before) → a.who = e.who →
    ∀ keyId target, ReadKey [a.exchange Op.exec] keyId target → UpdatesKey e keyId →
    ∀ b ∈ mid, ¬Rescopes b keyId

variable {parties : ι → Party} {w : World} {c : Config Op AppError AdminResponse World ι}
  {later early : List (Event Op World ι)} {e : Event Op World ι} {state : AppState}

/-- An edit meets the scope and the template it has read. -/
theorem InFlight.sameScope_since (hw : Reachable state w) (hrun : InFlight parties w c)
    (hapart : RescopesApart c.log) (hlog : c.log = later ++ e :: early) {keyId : Uuid}
    {target : ApiKey} (hread : ReadKey (heard Op.exec e.who early) keyId target)
    (hupdates : UpdatesKey e keyId) :
    (∃ a ∈ early, target ∈ a.before.db.apiKeys) ∧
      ∀ k ∈ e.before.db.apiKeys, k.id = keyId → target.SameScope k := by
  obtain ⟨a, ha, hwho, hshown, hmem, rfl, hsame⟩ := hread.event
  obtain ⟨mid, before, rfl, hsince⟩ := (hlog ▸ hrun.chained.2).since ha
  have hwf := (hrun.wellFormed hw.sound.wellFormed).2 a (by simp [hlog])
  have hstart : ∀ k ∈ (a.after Op.exec).db.apiKeys, k.id = target.id → target.SameScope k := by
    rw [hsame]
    intro k hk hid
    rw [hwf.eq_of_id hk hmem hid]
    exact ⟨rfl, rfl⟩
  refine ⟨⟨a, ha, hmem⟩, (hsince (fun w => ∀ k ∈ w.db.apiKeys, k.id = target.id →
    target.SameScope k) hstart).resolve_right ?_⟩
  rintro ⟨b, hb, hkept, hbroken⟩
  push Not at hbroken
  obtain ⟨k', hk', hid, hdiffers⟩ := hbroken
  refine hapart later e mid a before hlog hwho target.id target hshown hupdates b hb
    ⟨k', hk', hid, fun k hk hkid hsameScope => hdiffers ?_⟩
  obtain ⟨hscope, htemplate⟩ := hkept k hk hkid
  exact ⟨hsameScope.1.trans hscope, hsameScope.2.trans htemplate⟩

theorem ApiKeyUpdate.apply_signsByPolicy_of_sameScope {u : ApiKeyUpdate} {target k : ApiKey}
    (hscope : target.SameScope k) (h : (u.apply target).SignsByPolicy) :
    (u.apply k).SignsByPolicy := by
  simpa only [ApiKey.SignsByPolicy, ApiKeyUpdate.apply, hscope.1, hscope.2] using h

theorem Database.updateApiKey_apiKeys (db : Database) (id : Uuid) (u : ApiKeyUpdate) :
    (db.updateApiKey id u).2.apiKeys = db.apiKeys ∨
      (db.updateApiKey id u).2.apiKeys =
        db.apiKeys.map fun k => if k.id == id then u.apply k else k := by
  unfold updateApiKey
  split
  · exact .inl rfl
  · split
    · exact .inl rfl
    · exact .inr rfl

/-- Where edits of a key keep apart, a key that manages keys never has a template
of its own. -/
theorem scope_without_template (hw : Reachable state w) (hrun : InFlight parties w c)
    (hwrites : ∀ i, (parties i).request.WritesScope) (hapart : RescopesApart c.log) :
    ∀ k ∈ c.state.db.apiKeys, k.canManageKeys = true →
      k.hmacMode = .canonicalV1 ∧ k.canonicalTemplate = none := by
  have hpolicy : ∀ k ∈ c.state.db.apiKeys, k.SignsByPolicy := by
    refine (hrun.induct (J := fun w => ∀ k ∈ w.db.apiKeys, k.SignsByPolicy) hw.sound.signing
      fun later e early hlog hbefore hearly => ?_).1
    have hok := (Interleaved.ensures (A := fun _ => WritesByPolicy) (P := fun _ _ _ => True) hrun
      fun i => ensures_writesScope (hwrites i)).2 later e early hlog
    have hmeets : ∀ {id : Uuid} {u : ApiKeyUpdate} {target : ApiKey}, UpdatesKey e id →
        ReadKey (heard Op.exec e.who early) id target →
        (target.SignsByPolicy → (u.apply target).SignsByPolicy) →
        ∀ k ∈ e.before.db.apiKeys, k.id = id → (u.apply k).SignsByPolicy := by
      intro id u target hupdates hread himp k hk hid
      obtain ⟨⟨a, ha, hmem⟩, hscope⟩ := hrun.sameScope_since hw hapart hlog hread hupdates
      exact ApiKeyUpdate.apply_signsByPolicy_of_sameScope (hscope k hk hid)
        (himp (hearly a ha target hmem))
    obtain ⟨who, query, world⟩ := e
    simp only [Event.after, Op.exec_db]
    cases query with
    | db s =>
      have hother : (∀ k ∈ s.write?, Table.apiKeys ∉ k.tables) →
          ∀ k ∈ (s.exec world.db).2.apiKeys, k.SignsByPolicy := fun hs => by
        rw [show (s.exec world.db).2.apiKeys = world.db.apiKeys from s.exec_agree world.db hs]
        exact hbefore
      cases s with
      | insertApiKey row =>
        change ∀ k ∈ (world.db.insertApiKey row).2.apiKeys, _
        unfold Database.insertApiKey
        split
        · exact hbefore
        · intro k hk
          rcases List.mem_append.mp hk with hold | hnew
          · exact hbefore k hold
          · rw [List.mem_singleton.mp hnew]
            exact hok
      | updateApiKey id u =>
        obtain ⟨target, hread, himp⟩ := hok
        intro k hk
        rcases world.db.updateApiKey_apiKeys id u with hsame | hedited
        · exact hbefore k (hsame ▸ hk)
        · rw [show (Stmt.exec (.updateApiKey id u) world.db).2.apiKeys = _ from hedited] at hk
          obtain ⟨old, hold, rfl⟩ := List.mem_map.mp hk
          split
          · rename_i hid
            exact hmeets ⟨u, _, rfl⟩ hread himp old hold (by simpa using hid)
          · exact hbefore old hold
      | deleteApiKeys c => simp [WritesByPolicy, Stmt.write?] at hok
      | _ => exact hother (by simp [Stmt.write?, Write.tables])
    | _ => exact hbefore
  intro k hk hmanages
  exact ⟨by cases k.hmacMode; rfl, (hpolicy k hk).2 hmanages⟩

end Race

section Sample

open Sample

/-- The master lets the maker manage keys. -/
def promotingParty : Party :=
  ⟨ctx 3, Sample.masterRow, .updateApiKey 101 { canManageKeys := some true }⟩

/-- The master gives the maker a template of its own. -/
def retemplatingParty : Party :=
  ⟨ctx 4, Sample.masterRow,
    .updateApiKey 101 { canonicalTemplate := some "\x7btimestamp\x7d.\x7bbody\x7d" }⟩

def editors : Bool → Party
  | false => promotingParty
  | true => retemplatingParty

theorem writesScope_editors (i : Bool) : (editors i).request.WritesScope := by
  cases i <;> trivial

/-- The promotion alone, its two statements apart from anybody's. -/
theorem scope_without_template_alone : ∃ c : Config Op AppError AdminResponse World Bool,
    InFlight editors withOwned c ∧ c.log.length = 2 ∧
      ∀ k ∈ c.state.db.apiKeys, k.canManageKeys = true →
        k.hmacMode = .canonicalV1 ∧ k.canonicalTemplate = none := by
  obtain ⟨e₁, e₂, c, hrun, hlog, -⟩ := Interleaved.opening (I := Op.exec)
    (g := fun i => (editors i).program) (s := withOwned) (i := false) (by decide)
    (by decide)
  refine ⟨c, hrun, by rw [hlog]; rfl,
    scope_without_template reachable_withOwned hrun writesScope_editors ?_⟩
  intro later e mid a before hsplit _ _ _ _ _ b hb
  have hlen := congrArg List.length (hlog.symm.trans hsplit)
  simp only [List.length_append, List.length_cons, List.length_nil] at hlen
  have hmid : mid = [] := List.length_eq_zero_iff.mp (by omega)
  simp [hmid] at hb

set_option maxRecDepth 4000 in
/-- Two edits, each right by what it read, leave the maker both. -/
theorem scope_meets_template :
    ¬∀ (parties : Bool → Party) (w : World) (c : Config Op AppError AdminResponse World Bool),
      Reachable state w → (∀ i, (parties i).request.WritesScope) → InFlight parties w c →
      ∀ k ∈ c.state.db.apiKeys, k.canManageKeys = true →
        k.hmacMode = .canonicalV1 ∧ k.canonicalTemplate = none := by
  intro hclaim
  obtain ⟨e, c, hrun, -, -, -, hafter, hstate⟩ := Interleaved.overtaken (I := Op.exec)
    (g := fun i => (editors i).program) (s := withOwned) (show false ≠ true by decide) 1 20
    (by decide)
  have hkey :
      { maker with
        canManageKeys := true, canonicalTemplate := some "\x7btimestamp\x7d.\x7bbody\x7d" }
      ∈ c.state.db.apiKeys := by
    rw [hstate, hafter]
    decide
  exact absurd (hclaim editors withOwned c reachable_withOwned writesScope_editors hrun _ hkey
    rfl).2
    (by simp)

end Sample

end HookExecutor
