import HookExecutor.Verification.Invariant

/-!
# The same request in two worlds

What a caller learns from an answer is its status and its body. To say that an
answer gives nothing away about a row, the request is served twice: in the world
as it is, and in the one without the row. Here is what the two have in common
before any handler is reached: a caller whose own row is still there is let
through in both.
-/

namespace HookExecutor

/-- What a client is shown of an error. -/
def AppError.shown (e : AppError) : Nat × String × Option InventoryRefusalDetails :=
  (e.status, e.message, match e with
    | .conflictWithDetails _ details => some details
    | _ => none)

/-- What a client is shown of an answer. -/
def shown {α : Type} (answer : Except AppError α) :
    Except (Nat × String × Option InventoryRefusalDetails) α :=
  answer.mapError AppError.shown

theorem status_of_shown {α : Type} {e e' : AppError}
    (h : shown (.error e : Except AppError α) = shown (.error e')) : e.status = e'.status :=
  congrArg Prod.fst (Except.error.inj h)

/-- The world with another database. -/
def World.withDb (w : World) (db : Database) : World := { w with db := db }

@[simp] theorem World.withDb_db (w : World) (db : Database) : (w.withDb db).db = db := rfl
@[simp] theorem World.withDb_self (w : World) : w.withDb w.db = w := rfl

section Authentication

variable {w w' : World} {db : Database} {key : ApiKey} {state : AppState} {clock : AuthClock}
  {presentedKey : String} {clientIp : IpAddr} {hook : Option Hook} {req : HttpRequest}

/-- Checking a signature never looks at the database. -/
theorem checkSignature_withDb {timestamp : Option String}
    (h : (checkSignature state clock req hook key timestamp).run Op.exec w = (.ok (), w')) :
    (checkSignature state clock req hook key timestamp).run Op.exec (w.withDb db) =
      (.ok (), w'.withDb db) := by
  cases hsig : req.headers.getStr signatureHeader with
  | none =>
    obtain ⟨rfl, hunsigned⟩ := (checkSignature_unsigned_ok hsig).mp h
    exact (checkSignature_unsigned_ok hsig).mpr ⟨rfl, hunsigned⟩
  | some signature =>
    obtain ⟨digest, hverify, hfirst, hleft⟩ := (checkSignature_signed_ok hsig).mp h
    refine (checkSignature_signed_ok hsig).mpr ⟨digest, hverify, hfirst, ?_⟩
    rw [hleft]
    rfl

/-- A caller that is let through is let through wherever its row is found. -/
theorem authenticateBearerKey_withDb (hpinned : w.pinned ≠ none)
    (hfound : ∀ (p : ApiKey → Bool) record, w.db.apiKeys.find? p = some record →
      record.id = key.id → db.apiKeys.find? p = some record)
    (h : (authenticateBearerKey state clock presentedKey clientIp hook req).run Op.exec w =
      (.ok key, w')) :
    (authenticateBearerKey state clock presentedKey clientIp hook req).run Op.exec (w.withDb db) =
      (.ok key, w'.withDb db) := by
  obtain ⟨timestamp, record, pinned, htimestamp, hrecord, rfl, rfl, hcheck, hnetwork⟩ :=
    authenticateBearerKey_accepts.mp h
  have hidentity : (w.withDb db).masterIdentity = w.masterIdentity := by
    obtain ⟨id, hid⟩ := Option.ne_none_iff_exists'.mp hpinned
    simp [World.masterIdentity, World.withDb, hid]
  have hprincipal : (w.withDb db).principal record = w.principal record := by
    unfold World.principal
    rw [hidentity]
  refine authenticateBearerKey_accepts.mpr ⟨timestamp, record, _, htimestamp,
    hfound _ _ hrecord (w.principal_id record).symm, hprincipal.symm, rfl, ?_, hnetwork⟩
  rw [hidentity]
  exact checkSignature_withDb hcheck

/-- An administrative request that is let through is let through wherever its
caller's row is found. -/
theorem authenticate_withDb (db : Database) {ctx : Context} {http : HttpRequest}
    {request : AdminRequest}
    (hpinned : w.pinned ≠ none)
    (hfound : ∀ (p : ApiKey → Bool) record, w.db.apiKeys.find? p = some record →
      record.id = key.id → db.apiKeys.find? p = some record)
    (h : (authenticate ctx clock (.admin http request)).run Op.exec w =
      (.ok (.admin key request), w')) :
    (authenticate ctx clock (.admin http request)).run Op.exec (w.withDb db) =
      (.ok (.admin key request), w'.withDb db) := by
  simp only [authenticate, authMiddleware, Program.map_eq, Program.bind_eq,
    Program.run_bind_eq_ok_iff, Program.run_pure, run_orElse] at h ⊢
  obtain ⟨_, _, ⟨presentedKey, t, hpresented, hbearer⟩, hret⟩ := h
  cases hheader : http.headers.getStr apiKeyHeader with
  | none => simp [hheader] at hpresented
  | some presented =>
    simp only [hheader, Option.elim_some, Prod.mk.injEq, Except.ok.injEq] at hpresented
    obtain ⟨rfl, rfl⟩ := hpresented
    cases hret
    exact ⟨key, _, ⟨presented, _, by simp, authenticateBearerKey_withDb hpinned hfound hbearer⟩,
      rfl⟩

theorem World.Sound.pinned_ne_none (h : w.Sound) : w.pinned ≠ none := by
  obtain ⟨m, -, -, -, hpinned⟩ := h.master
  simp [hpinned]

end Authentication

end HookExecutor
