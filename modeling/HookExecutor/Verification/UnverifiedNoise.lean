import HookExecutor.Lib.Guarantee
import HookExecutor.Lib.Transcript
import HookExecutor.Verification.SignedRequests
import HookExecutor.Verification.Writes

/-!
# Nobody else uses up a signature

The guard is asked only about signatures that have verified, each for the key it
verified under. A request that does not verify leaves the guard alone, and what
else it may leave behind, the pinned identity, is what everybody else would have
pinned. However many such requests come, and whenever: every other request has
the outcome it would have without them.
-/

namespace HookExecutor

open Text Crypto

/-- One request to be authenticated by the key it presents. -/
structure KeyedRequest where
  clock : AuthClock
  presentedKey : String
  clientIp : IpAddr
  hook : Option Hook
  req : HttpRequest

/-- The principal a record stands for when the master is who it is. -/
def ApiKey.principalUnder (master : Option Uuid) (record : ApiKey) : ApiKey :=
  if record.isMaster = true ∧ master ≠ some record.id then { record with isMaster := false }
  else record

namespace KeyedRequest

variable (state : AppState) (r : KeyedRequest)

def program : Handler ApiKey :=
  authenticateBearerKey state r.clock r.presentedKey r.clientIp r.hook r.req

/-- The signature that the request presents under the key it presents is in time
and is the MAC of the request's own bytes under that key's secret. -/
def Verifies (db : Database) (id : SignatureId) : Prop :=
  ∃ record provided timestamp secret,
    db.apiKeys.find? (fun k => k.keyHash == hashKey state.platform.prim r.presentedKey) =
      some record ∧
    record.id = id.keyId ∧
    r.req.headers.getStr signatureHeader = some provided ∧
    prevalidateTimestampHeader r.req.headers state.config.signatureMaxAgeSeconds
      r.clock.prevalidatedAt = .ok (some timestamp) ∧
    validateTimestamp timestamp state.config.signatureMaxAgeSeconds r.clock.validatedAt = .ok () ∧
    recoverSigningSecret state record = .ok secret ∧
    bufferBody r.req.body = .ok r.req.body ∧
    presentedDigest provided signaturePrefix = some id.digest ∧
    state.platform.prim.hmacSha256 (asBytes secret)
      (signingBase r.req (templateInForce r.hook record) timestamp) = some id.digest

/-- What the signature check comes to, given what the guard answered. -/
def signatureVerdict (key : ApiKey) (presentedTimestamp : Option String) (answers : List Bool) :
    Except AppError Unit :=
  match r.req.headers.getStr signatureHeader with
  | some signature => do
    let _ ← verifyKeySignature state r.clock r.req r.hook key presentedTimestamp signature
    if answers = [true] then .ok () else
      .error (.unauthorized "This signature has already been used; sign a fresh request")
  | none =>
    if signatureRequired state key = false then .ok () else
      .error (.unauthorized (s!"This request must be signed: send {signatureHeader} and " ++
        s!"{timestampHeader}"))

/-- What a request comes to, given what the guard answered. -/
def verdict (db : Database) (master : Option Uuid) (answers : List Bool) :
    Except AppError ApiKey := do
  let presentedTimestamp ← prevalidateTimestampHeader r.req.headers
    state.config.signatureMaxAgeSeconds r.clock.prevalidatedAt
  let record ← ((db.apiKeys.find? fun k =>
    k.keyHash == hashKey state.platform.prim r.presentedKey).elim
      (.error (.unauthorized "Invalid API Key")) .ok)
  let key := record.principalUnder master
  r.signatureVerdict state key presentedTimestamp answers
  guardNetwork state.platform key r.clientIp
  return key

end KeyedRequest

section Verification

variable {state : AppState} {r : KeyedRequest} {db : Database} {id id' : SignatureId}
  {record key : ApiKey}

namespace KeyedRequest

/-- A request presents one signature. -/
theorem Verifies.unique (h : r.Verifies state db id) (h' : r.Verifies state db id') : id = id' := by
  obtain ⟨record, provided, timestamp, secret, hrecord, hid, hprovided, -, -, -, -, hdigest, -⟩ := h
  obtain ⟨_, _, _, _, hrecord', hid', hprovided', -, -, -, -, hdigest', -⟩ := h'
  rw [hrecord, Option.some.injEq] at hrecord'
  rw [hprovided, Option.some.injEq] at hprovided'
  subst hrecord' hprovided'
  rw [hdigest, Option.some.injEq] at hdigest'
  cases id
  cases id'
  simp_all

/-- What the middleware verifies is what the request has to verify. -/
theorem verifies_of_verified {presentedTimestamp : Option String} {provided : String}
    {digest : Bytes}
    (hrecord : db.apiKeys.find? (fun k => k.keyHash == hashKey state.platform.prim r.presentedKey) =
      some record)
    (hkey : EffectivePrincipal record key)
    (htimestamp : prevalidateTimestampHeader r.req.headers state.config.signatureMaxAgeSeconds
      r.clock.prevalidatedAt = .ok presentedTimestamp)
    (hprovided : r.req.headers.getStr signatureHeader = some provided)
    (hverify : verifyKeySignature state r.clock r.req r.hook key presentedTimestamp provided =
      .ok digest) : r.Verifies state db ⟨key.id, digest⟩ := by
  obtain ⟨timestamp, secret, rfl, hvalid, hsecret, hbody, hdigest, hmac⟩ :=
    verifyKeySignature_ok.mp hverify
  refine ⟨record, provided, timestamp, secret, hrecord, hkey.id.symm, hprovided, htimestamp, hvalid,
    ?_, hbody, hdigest, ?_⟩
  · rcases hkey with rfl | rfl
    · exact hsecret
    · exact hsecret
  · rcases hkey with rfl | rfl
    · exact hmac
    · exact hmac

end KeyedRequest

end Verification

/-! ### What a request asks and what it comes to -/

/-- An answer that could be given while the database is this and the master is
who it is. -/
def AnsweredOver (db : Database) (master : Option Uuid) (β : Type) (q : Op β) (b : β) : Prop :=
  ∃ w : World, w.db = db ∧ w.masterIdentity = master ∧ (Op.exec β q w).1 = b

/-- What a request may ask: reads, the pin that everybody would set, and the guard
about the signature that it verifies under. -/
def AsksOnly (state : AppState) (db : Database) (r : KeyedRequest) : ∀ β, Op β → Prop
  | _, .db s => s.write? = none
  | _, .pinnedMaster => True
  | _, .pinMaster id => db.soleMaster = some id
  | _, .checkAndRecord keyId digest now =>
    r.Verifies state db ⟨keyId, digest⟩ ∧ now = r.clock.recordedAt
  | _, _ => False

/-- What the guard answered. -/
def guardAnswer : ((β : Type) × Op β × β) → Option Bool
  | ⟨_, .checkAndRecord _ _ _, b⟩ => some b
  | _ => none

def guardAnswers (h : Heard Op) : List Bool := h.filterMap guardAnswer

/-- The cell of the pin was seen empty after it was filled. -/
def Forgotten (h : Heard Op) : Prop :=
  ∃ id later early, h = later ++ ⟨_, .pinnedMaster, none⟩ :: ⟨_, .pinMaster id, ()⟩ :: early

section Conduct

open Program

variable {state : AppState} {r : KeyedRequest} {db : Database} {master : Option Uuid}
  {h : Heard Op} {α : Type}

theorem Forgotten.cons (h' : Forgotten h) (a : (β : Type) × Op β × β) : Forgotten (a :: h) := by
  obtain ⟨id, later, early, rfl⟩ := h'
  exact ⟨id, a :: later, early, rfl⟩

/-- What a request does over an unchanged database. -/
abbrev Conducts (state : AppState) (r : KeyedRequest) (db : Database) (master : Option Uuid)
    (h : Heard Op) (p : Handler α) (P : Heard Op → Except AppError α → Prop) : Prop :=
  p.Guarantees (AnsweredOver db master) (fun _ => AsksOnly state db r) h P

theorem answeredOver_db {s : Stmt α} {answer : Except DbErr α}
    (h : AnsweredOver db master _ (.db s) answer) : answer = (s.exec db).1 := by
  obtain ⟨w, rfl, -, rfl⟩ := h
  rfl

theorem conducts_resolveInner (hsilent : guardAnswers h = []) :
    Conducts state r db master h resolveInner fun h' out =>
      guardAnswers h' = [] ∧ ∃ found, out = .ok found ∧ found.toOption = db.soleMaster := by
  refine ⟨rfl, fun answer hanswer => ⟨hsilent, ?_⟩⟩
  obtain rfl : answer = .ok (db.apiKeys.filter fun k => k.isMaster) := answeredOver_db hanswer
  refine ⟨_, rfl, ?_⟩
  unfold Database.soleMaster
  generalize db.apiKeys.filter (fun k => k.isMaster) = masters
  match masters with
  | [] => rfl
  | [_] => rfl
  | _ :: _ :: _ => rfl

/-- The identity that is asked for is the master's, unless the pin was seen to
have been taken away. -/
theorem conducts_resolveMaster (hsilent : guardAnswers h = []) :
    Conducts state r db master h resolveMaster fun h' out =>
      guardAnswers h' = [] ∧ ∃ seen, out = .ok seen ∧ (Forgotten h' ∨ seen = master) := by
  refine ⟨trivial, fun pinned hpinned => ?_⟩
  obtain ⟨w, rfl, rfl, hanswer⟩ := hpinned
  replace hanswer : w.pinned = pinned := hanswer
  cases pinned with
  | some id =>
    refine ⟨hsilent, _, rfl, .inr ?_⟩
    rw [World.masterIdentity, hanswer, Option.some_or]
  | none =>
    have hmaster : w.masterIdentity = w.db.soleMaster := by
      rw [World.masterIdentity, hanswer, Option.none_or]
    change Conducts state r w.db w.masterIdentity (⟨_, .pinnedMaster, none⟩ :: h)
      (resolveInner.bind _) _
    refine Guarantees.bind (conducts_resolveInner hsilent) ?_ ?_
    · rintro h' e ⟨-, found, hout, -⟩
      cases hout
    · rintro h' found ⟨hsilent', _, ⟨⟩, hfound⟩
      cases found with
      | error e => exact ⟨hsilent', _, rfl, .inr (hfound.trans hmaster.symm)⟩
      | ok id =>
        refine ⟨hfound.symm, fun _ _ => ⟨trivial, fun seen hseen => ⟨hsilent', seen, rfl, ?_⟩⟩⟩
        cases seen with
        | none => exact .inl ⟨id, [], h', rfl⟩
        | some id' =>
          obtain ⟨w', -, hmaster', hanswer'⟩ := hseen
          replace hanswer' : w'.pinned = some id' := hanswer'
          rw [← hmaster', World.masterIdentity, hanswer', Option.some_or]
          exact .inr rfl

theorem conducts_authenticatePin (record : ApiKey) (hsilent : guardAnswers h = []) :
    Conducts state r db master h (authenticatePin record) fun h' out =>
      guardAnswers h' = [] ∧ ∃ key, out = .ok key ∧ EffectivePrincipal record key ∧
        (Forgotten h' ∨ key = record.principalUnder master) := by
  unfold authenticatePin
  cases hmaster : record.isMaster with
  | false =>
    refine ⟨hsilent, record, rfl, .inl rfl, .inr ?_⟩
    rw [ApiKey.principalUnder, if_neg (by simp [hmaster])]
  | true =>
    refine Guarantees.bind (conducts_resolveMaster hsilent) ?_ ?_
    · rintro h' e ⟨-, seen, hout, -⟩
      cases hout
    · rintro h' seen ⟨hsilent', _, ⟨⟩, hseen⟩
      refine ⟨hsilent', _, rfl, ?_, ?_⟩
      · split
        · exact .inl rfl
        · exact .inr rfl
      · refine hseen.imp_right fun hseen => ?_
        subst hseen
        rw [ApiKey.principalUnder]
        by_cases hself : seen = some record.id
        · simp [hself]
        · simp [hself, hmaster]

/-- The guard is asked once, about the signature the request verifies under. -/
theorem conducts_checkSignature {record key : ApiKey} {presentedTimestamp : Option String}
    (hrecord : db.apiKeys.find? (fun k => k.keyHash == hashKey state.platform.prim r.presentedKey) =
      some record)
    (hkey : EffectivePrincipal record key)
    (htimestamp : prevalidateTimestampHeader r.req.headers state.config.signatureMaxAgeSeconds
      r.clock.prevalidatedAt = .ok presentedTimestamp)
    (hsilent : guardAnswers h = []) :
    Conducts state r db master h (checkSignature state r.clock r.req r.hook key presentedTimestamp)
      fun h' out => out = r.signatureVerdict state key presentedTimestamp (guardAnswers h') ∧
        (Forgotten h → Forgotten h') := by
  unfold checkSignature
  cases hprovided : r.req.headers.getStr signatureHeader with
  | none =>
    refine guarantees_require (fun hfree => ⟨?_, id⟩) fun hrequired => ⟨?_, id⟩
    · simp only [KeyedRequest.signatureVerdict, hprovided, if_pos hfree]
    · simp only [KeyedRequest.signatureVerdict, hprovided, if_neg hrequired]
  | some provided =>
    dsimp only
    cases hverify : verifyKeySignature state r.clock r.req r.hook key presentedTimestamp
        provided with
    | error e =>
      refine ⟨?_, id⟩
      simp only [KeyedRequest.signatureVerdict, hprovided, hverify]
      rfl
    | ok digest =>
      have hverifies := KeyedRequest.verifies_of_verified hrecord hkey htimestamp hprovided hverify
      refine ⟨⟨hverifies, rfl⟩, fun first _ => ?_⟩
      have hanswers : guardAnswers (⟨_, Op.checkAndRecord key.id digest r.clock.recordedAt,
          first⟩ :: h) = [first] := by
        change first :: guardAnswers h = _
        rw [hsilent]
      refine guarantees_require (fun hfirst => ⟨?_, fun hforgot => hforgot.cons _⟩)
        fun hused => ⟨?_, fun hforgot => hforgot.cons _⟩
      · rw [hanswers, hfirst]
        simp only [KeyedRequest.signatureVerdict, hprovided, hverify]
        rfl
      · rw [hanswers]
        simp only [KeyedRequest.signatureVerdict, hprovided, hverify]
        change _ = if _ then _ else _
        rw [if_neg (by simpa using hused)]

variable (state r db master) in
/-- Over an unchanged database a request comes to what the guard's answer makes
of it. -/
theorem conducts_program :
    Conducts state r db master [] (r.program state) fun h' out =>
      Forgotten h' ∨ out = r.verdict state db master (guardAnswers h') := by
  unfold KeyedRequest.program authenticateBearerKey
  cases htimestamp : prevalidateTimestampHeader r.req.headers state.config.signatureMaxAgeSeconds
      r.clock.prevalidatedAt with
  | error e =>
    refine .inr ?_
    simp only [KeyedRequest.verdict, htimestamp]
    rfl
  | ok presentedTimestamp =>
    refine Guarantees.bind (M := fun h' out => guardAnswers h' = [] ∧ out = .ok
      (db.apiKeys.find? fun k => k.keyHash == hashKey state.platform.prim r.presentedKey)) ?_ ?_ ?_
    · refine Guarantees.map ⟨rfl, fun answer hanswer => ?_⟩
      obtain rfl := answeredOver_db hanswer
      refine ⟨rfl, ?_⟩
      rw [← List.head?_filter]
      rfl
    · rintro _ _ ⟨-, ⟨⟩⟩
    · rintro h₁ _ ⟨hsilent, ⟨⟩⟩
      cases hrecord : db.apiKeys.find? (fun k =>
          k.keyHash == hashKey state.platform.prim r.presentedKey) with
      | none =>
        refine .inr ?_
        simp only [KeyedRequest.verdict, htimestamp, hrecord]
        rfl
      | some record =>
        change Conducts state r db master h₁ ((authenticatePin record).bind _) _
        refine Guarantees.bind (conducts_authenticatePin record hsilent) ?_ ?_
        · rintro _ _ ⟨-, _, ⟨⟩, -⟩
        · rintro h₂ key ⟨hsilent₂, _, ⟨⟩, hkey, hprincipal⟩
          refine Guarantees.bind (conducts_checkSignature hrecord hkey htimestamp hsilent₂) ?_ ?_
          · rintro h₃ e ⟨he, hkept⟩
            refine hprincipal.imp hkept fun hprincipal => ?_
            subst hprincipal
            simp only [KeyedRequest.verdict, htimestamp, hrecord]
            change _ = Except.bind (r.signatureVerdict _ _ _ _) _
            rw [← he]
            rfl
          · rintro h₃ _ ⟨hok, hkept⟩
            have hverdict : key = record.principalUnder master →
                r.verdict state db master (guardAnswers h₃) =
                  (guardNetwork state.platform key r.clientIp).map fun _ => key := by
              rintro rfl
              simp only [KeyedRequest.verdict, htimestamp, hrecord]
              change Except.bind (r.signatureVerdict _ _ _ _) _ = _
              rw [← hok]
              cases guardNetwork state.platform (record.principalUnder master) r.clientIp <;> rfl
            cases hnetwork : guardNetwork state.platform key r.clientIp with
            | error e => exact hprincipal.imp hkept fun hkey => by rw [hverdict hkey, hnetwork]; rfl
            | ok _ => exact hprincipal.imp hkept fun hkey => by rw [hverdict hkey, hnetwork]; rfl

end Conduct

/-! ### One request after the other -/

section Standing

open Program

variable {state : AppState} {r : KeyedRequest} {db : Database} {v w : World} {β : Type}
  {q : Op β}

/-- What a request may ask leaves the database and the master's identity as they
are, and the guard, unless it is asked. -/
theorem AsksOnly.exec (hq : AsksOnly state db r β q) (hdb : w.db = db) :
    (Op.exec β q w).2.db = db ∧ (Op.exec β q w).2.masterIdentity = w.masterIdentity ∧
      ((Op.exec β q w).2.replay = w.replay ∨ ∃ id, r.Verifies state db id ∧
        (Op.exec β q w).2.replay =
          (w.replay.checkAndRecord id.keyId id.digest r.clock.recordedAt).2) := by
  cases q with
  | db s =>
    have hread : (Op.exec _ (.db s) w).2 = w := by
      change { w with db := (s.exec w.db).2 } = w
      rw [Stmt.exec_snd_of_read hq]
    rw [hread]
    exact ⟨hdb, rfl, .inl rfl⟩
  | checkAndRecord keyId digest now =>
    obtain ⟨hverifies, rfl⟩ := hq
    exact ⟨hdb, rfl, .inr ⟨_, hverifies, rfl⟩⟩
  | pinnedMaster => exact ⟨hdb, rfl, .inl rfl⟩
  | pinMaster id =>
    refine ⟨hdb, ?_, .inl rfl⟩
    change (w.pinned.or (some id)).or w.db.soleMaster = w.pinned.or w.db.soleMaster
    rw [hdb, show db.soleMaster = some id from hq, Option.or_assoc, Option.some_or]
  | tryAcquire keyId permits => exact hq.elim
  | release permit => exact hq.elim

theorem answeredOver_exec (w : World) (q : Op β) :
    AnsweredOver w.db w.masterIdentity β q (Op.exec β q w).1 := ⟨w, rfl, rfl, rfl⟩

/-- The worlds do not differ in what the outcome of a request depends on. -/
structure SameStanding (v w : World) : Prop where
  db : v.db = w.db
  master : v.masterIdentity = w.masterIdentity
  replay : v.replay = w.replay

theorem authenticatePin_lockstep (record : ApiKey) :
    (authenticatePin record).Lockstep Op.exec SameStanding := by
  intro v w h
  have hprincipal : v.principal record = w.principal record := by
    unfold World.principal
    rw [h.master]
  rw [authenticatePin_run, authenticatePin_run, hprincipal]
  refine ⟨rfl, h.db, ?_, h.replay⟩
  cases record.isMaster with
  | false => exact h.master
  | true =>
    change v.masterIdentity.or v.db.soleMaster = w.masterIdentity.or w.db.soleMaster
    rw [h.master, h.db]

theorem checkSignature_lockstep (key : ApiKey) (presentedTimestamp : Option String) :
    (checkSignature state r.clock r.req r.hook key presentedTimestamp).Lockstep Op.exec
      SameStanding := by
  intro v w h
  refine Emits.lockstep ?_ h
  unfold checkSignature
  cases r.req.headers.getStr signatureHeader with
  | none => exact Program.emits_require _ _
  | some signature =>
    refine .bind (Program.emits_ofExcept _) fun digest =>
      .bind ((Program.emits_ask _).mpr fun v w h => ?_) fun _ => Program.emits_require _ _
    simp only [Op.exec]
    rw [h.replay]
    exact ⟨rfl, h.db, h.master, rfl⟩

/-- The same request comes to the same in worlds that do not differ in what it
depends on, and they do not differ afterwards. -/
theorem program_lockstep : (r.program state).Lockstep Op.exec SameStanding := by
  refine .bind (lockstep_ofExcept _) fun presentedTimestamp => .bind ?_ fun found => .bind ?_
    fun record => .bind (authenticatePin_lockstep record) fun key =>
      .bind (checkSignature_lockstep key _) fun _ => .bind (lockstep_ofExcept _) fun _ => ?_
  · intro v w h
    rw [run_selectByHash, run_selectByHash, h.db]
    exact ⟨rfl, h⟩
  · cases found with
    | none => exact lockstep_ofExcept (.error _)
    | some record => exact lockstep_ofExcept (.ok record)
  · exact lockstep_ofExcept (.ok key)

/-- No request touches the database. -/
theorem program_db : ((r.program state).run Op.exec w).2.db = w.db := by
  have hkept := (conducts_program state r w.db w.masterIdentity).run_inv
    (I := Op.exec) (J := fun t => t.db = w.db ∧ t.masterIdentity = w.masterIdentity) (s := w)
    ⟨rfl, rfl⟩
    (fun _ _ _ t hq ht => ⟨(hq.exec ht.1).1, (hq.exec ht.1).2.1.trans ht.2⟩)
    (fun _ q t ht => by
      have := answeredOver_exec t q
      rwa [ht.1, ht.2] at this)
  exact hkept.1

/-- A request that does not verify leaves alone what outcomes depend on. -/
theorem program_unverified (hunverified : ∀ id, ¬r.Verifies state w.db id) :
    SameStanding ((r.program state).run Op.exec w).2 w := by
  refine (conducts_program state r w.db w.masterIdentity).run_inv (I := Op.exec)
    (J := fun t => SameStanding t w) ⟨rfl, rfl, rfl⟩ (fun _ _ _ t hq ht => ?_) fun _ q t ht => ?_
  · obtain ⟨hdb, hmaster, hreplay⟩ := hq.exec ht.db
    refine ⟨hdb, hmaster.trans ht.master, ?_⟩
    rcases hreplay with hreplay | ⟨id, hverifies, -⟩
    · exact hreplay.trans ht.replay
    · exact absurd hverifies (hunverified id)
  · rw [← ht.db, ← ht.master]
    exact answeredOver_exec t q

end Standing

/-- Requests are authenticated one after the other. -/
def keyedMachine (state : AppState) : Machine World KeyedRequest (Except AppError ApiKey) :=
  fun w r => (r.program state).run Op.exec w

section Sequence

variable {state : AppState} {w : World} {run run' : List KeyedRequest}

/-- Requests that do not verify, put into a run anywhere, leave every other
request the outcome it had. -/
theorem keyed_padded
    (hpadded : Machine.Padded (fun r : KeyedRequest => ∀ id, ¬r.Verifies state w.db id) run run') :
    Machine.Padded (fun e : KeyedRequest × Except AppError ApiKey =>
        ∀ id, ¬e.1.Verifies state w.db id)
      ((keyedMachine state).transcript w run) ((keyedMachine state).transcript w run') := by
  refine Machine.transcript_padded (P := fun t => t.db = w.db) hpadded (fun t r ht => ?_)
    (fun _ _ r h => program_lockstep _ _ h) (fun s t r h ht hunverified => ?_) ⟨rfl, rfl, rfl⟩ rfl
  · exact program_db.trans ht
  · have hsame : SameStanding ((keyedMachine state) t r).2 t :=
      program_unverified (by rwa [ht])
    exact ⟨h.db.trans hsame.db.symm, h.master.trans hsame.master.symm,
      h.replay.trans hsame.replay.symm⟩

end Sequence

/-! ### Requests at the same time -/

section Interleaved

variable {ι : Type} [DecidableEq ι] {state : AppState} {requests : ι → KeyedRequest} {w : World}
  {c c' : Config Op AppError ApiKey World ι}

/-- Requests that are authenticated at the same time. -/
abbrev KeyedRun (state : AppState) (requests : ι → KeyedRequest) (w : World)
    (c : Config Op AppError ApiKey World ι) : Prop :=
  Interleaved Op.exec (fun i => (requests i).program state) w c

omit [DecidableEq ι] in
theorem pinned_isSome_kept (e : Event Op World ι) (h : e.before.pinned.isSome = true) :
    (e.after Op.exec).pinned.isSome = true := by
  obtain ⟨who, query, before⟩ := e
  change (Op.exec _ query before).2.pinned.isSome = true
  cases query with
  | pinMaster id =>
    change (before.pinned.or (some id)).isSome = true
    simp
  | tryAcquire keyId permits => rwa [Op.exec, World.tryAcquire_pinned]
  | release permit => rwa [Op.exec, World.release_pinned]
  | _ => exact h

/-- Nobody sees the pin taken away. -/
theorem KeyedRun.not_forgotten (hrun : KeyedRun state requests w c) (i : ι) :
    ¬Forgotten (heard Op.exec i c.log) := by
  rintro ⟨id, later, early, hheard⟩
  obtain ⟨late, e, past, hlog, hexchange, hpast⟩ := exists_of_heard_eq hheard
  have hpin : (⟨_, .pinMaster id, ()⟩ : (β : Type) × Op β × β) ∈ heard Op.exec i past := by
    rw [hpast]
    exact List.mem_cons_self
  obtain ⟨a, ha, -, hpinned⟩ := mem_heard.mp hpin
  obtain ⟨mid, before, rfl⟩ := List.append_of_mem ha
  have hchained := hrun.chained.2
  rw [hlog] at hchained
  have hafter : (a.after Op.exec).pinned.isSome = true := by
    have hfilled : a.before.pinned.or (some id) = (a.after Op.exec).pinned :=
      congrArg (·.2.pinned) (Event.exec_of_exchange hpinned)
    simp [← hfilled]
  have hkept := hchained.early.2.kept (φ := fun w : World => w.pinned.isSome = true)
    pinned_isSome_kept hafter
  rw [← hchained.before] at hkept
  have hnone : e.before.pinned = none := congrArg Prod.fst (Event.exec_of_exchange hexchange)
  rw [hnone] at hkept
  cases hkept

/-- Whatever a request asked, it was allowed to ask; and what it came to, if it has,
is its verdict. -/
theorem KeyedRun.kept (hrun : KeyedRun state requests w c) :
    (∀ e ∈ c.log, e.before.db = w.db ∧ AsksOnly state w.db (requests e.who) _ e.query) ∧
      ∀ i out, (c.left i).outcome = some out →
        out = (requests i).verdict state w.db w.masterIdentity
          (guardAnswers (heard Op.exec i c.log)) := by
  obtain ⟨-, hleft, hlog⟩ := Interleaved.guarantees hrun
    (J := fun t => t.db = w.db ∧ t.masterIdentity = w.masterIdentity)
    (A := fun i _ => AsksOnly state w.db (requests i)) ⟨rfl, rfl⟩
    (fun i => conducts_program state (requests i) w.db w.masterIdentity)
    (fun i _ _ q t hq ht => ⟨(hq.exec ht.1).1, (hq.exec ht.1).2.1.trans ht.2⟩)
    (fun e _ ht => by
      have hanswer := answeredOver_exec e.before e.query
      rwa [ht.1, ht.2] at hanswer)
  refine ⟨fun e he => ?_, fun i out hout => ?_⟩
  · obtain ⟨hbefore, _, hasks⟩ := hlog e he
    exact ⟨hbefore.1, hasks⟩
  · exact ((hleft i).of_outcome hout).resolve_left (hrun.not_forgotten i)

/-- The guard gains nothing but the signature it is asked about. -/
theorem checkAndRecord_gains {g : ReplayGuard} {id : SignatureId} {now : Instant}
    {entry : SignatureId × Instant}
    (hafter : entry ∈ (g.checkAndRecord id.keyId id.digest now).2.seen) (hnew : entry ∉ g.seen) :
    entry.1 = id := by
  have hswept : ∀ entry ∈ (g.pruneIfDue now).seen, entry ∈ g.seen := by
    intro entry h
    unfold ReplayGuard.pruneIfDue at h
    dsimp only at h
    split at h
    · exact h
    · exact List.mem_of_mem_filter h
  rcases ReplayGuard.checkAndRecord_eq g id now with ⟨-, heq⟩ | ⟨-, heq⟩
  · rw [heq] at hafter
    exact absurd (hswept entry hafter) hnew
  · rw [heq] at hafter
    rcases List.mem_cons.mp hafter with rfl | hold
    · rfl
    · exact absurd (hswept entry (List.mem_of_mem_filter hold)) hnew

theorem KeyedRun.gains (hrun : KeyedRun state requests w c) {e : Event Op World ι} (he : e ∈ c.log)
    {entry : SignatureId × Instant} (hafter : entry ∈ (e.after Op.exec).replay.seen)
    (hnew : entry ∉ e.before.replay.seen) : (requests e.who).Verifies state w.db entry.1 := by
  obtain ⟨hdb, hasks⟩ := hrun.kept.1 e he
  obtain ⟨-, -, hsame | ⟨id, hverifies, hreplay⟩⟩ := hasks.exec hdb
  · have hkept : (e.after Op.exec).replay = e.before.replay := hsame
    rw [hkept] at hafter
    exact absurd hafter hnew
  · have hchecked : (e.after Op.exec).replay = _ := hreplay
    rw [hchecked] at hafter
    rw [checkAndRecord_gains hafter hnew]
    exact hverifies

/-! ### The order in which the guard is asked -/

/-- Who asked the guard and what it answered, latest first. -/
def guardEvents (log : List (Event Op World ι)) : List (ι × Bool) :=
  log.filterMap fun e => (guardAnswer (e.exchange Op.exec)).map (e.who, ·)

/-- Who asked the guard, latest first. -/
def guardOrder (log : List (Event Op World ι)) : List ι := (guardEvents log).map (·.1)

/-- What the guard answers and becomes when it is asked in this order. -/
def guardReplay (requests : ι → KeyedRequest) (ids : ι → SignatureId) (g : ReplayGuard) :
    List ι → List (ι × Bool) × ReplayGuard
  | [] => ([], g)
  | i :: earlier =>
    let past := guardReplay requests ids g earlier
    let asked := past.2.checkAndRecord (ids i).keyId (ids i).digest (requests i).clock.recordedAt
    ((i, asked.1) :: past.1, asked.2)

theorem guardAnswers_heard (i : ι) (log : List (Event Op World ι)) :
    guardAnswers (heard Op.exec i log) =
      ((guardEvents log).filter (·.1 = i)).map (·.2) := by
  induction log with
  | nil => rfl
  | cons e log ih =>
    by_cases hwho : e.who = i
    · rw [heard_cons_self hwho]
      cases hanswer : guardAnswer (e.exchange Op.exec) with
      | none => simpa [guardAnswers, guardEvents, hanswer] using ih
      | some b => simpa [guardAnswers, guardEvents, hanswer, hwho] using ih
    · rw [heard_cons_of_ne hwho, ih]
      cases hanswer : guardAnswer (e.exchange Op.exec) with
      | none => simp [guardEvents, hanswer]
      | some b => simp [guardEvents, hanswer, hwho]

omit [DecidableEq ι] in
/-- The guard's answers and what becomes of it follow from the order in which it
is asked. -/
theorem guardEvents_eq {log : List (Event Op World ι)} {ids : ι → SignatureId}
    (hids : ∀ i id, (requests i).Verifies state w.db id → ids i = id)
    (hchained : Chained Op.exec w log)
    (hasks : ∀ e ∈ log, AsksOnly state w.db (requests e.who) _ e.query) :
    (guardEvents log, (stateAfter Op.exec w log).replay) =
      guardReplay requests ids w.replay (guardOrder log) := by
  induction log with
  | nil => rfl
  | cons e log ih =>
    obtain ⟨hbefore, hearly⟩ := hchained
    obtain ⟨hask, hasks⟩ := List.forall_mem_cons.mp hasks
    have hpast := ih hearly hasks
    obtain ⟨who, query, before⟩ := e
    replace hbefore : before = stateAfter Op.exec w log := hbefore
    cases query with
    | checkAndRecord keyId digest now =>
      obtain ⟨hverifies, hnow⟩ := hask
      replace hnow : now = (requests who).clock.recordedAt := hnow
      subst hnow
      change (_ :: guardEvents log, _) = guardReplay requests ids w.replay (who :: guardOrder log)
      rw [guardReplay, ← hpast, hids who _ hverifies, hbefore]
      rfl
    | tryAcquire keyId permits => exact hask.elim
    | release permit => exact hask.elim
    | db s =>
      change (guardEvents log, before.replay) = _
      rw [hbefore]
      exact hpast
    | pinnedMaster =>
      change (guardEvents log, before.replay) = _
      rw [hbefore]
      exact hpast
    | pinMaster id =>
      change (guardEvents log, before.replay) = _
      rw [hbefore]
      exact hpast

omit [DecidableEq ι] in
/-- Which signature each request verifies under, if it does under any. -/
theorem exists_ids (state : AppState) (requests : ι → KeyedRequest) (db : Database) :
    ∃ ids : ι → SignatureId, ∀ i id, (requests i).Verifies state db id → ids i = id := by
  have hall : ∀ i, ∃ id, ∀ id', (requests i).Verifies state db id' → id = id' := by
    intro i
    by_cases hverifies : ∃ id, (requests i).Verifies state db id
    · obtain ⟨id, hid⟩ := hverifies
      exact ⟨id, fun id' hid' => hid.unique hid'⟩
    · exact ⟨⟨0, []⟩, fun id' hid' => absurd ⟨id', hid'⟩ hverifies⟩
  choose ids hids using hall
  exact ⟨ids, hids⟩

/-- Only a request that verifies gets to ask the guard. -/
theorem KeyedRun.verifies_of_guardOrder (hrun : KeyedRun state requests w c) {i : ι}
    (hi : i ∈ guardOrder c.log) : ∃ id, (requests i).Verifies state w.db id := by
  obtain ⟨_, hpair, rfl⟩ := List.mem_map.mp hi
  obtain ⟨e, he, hanswer⟩ := List.mem_filterMap.mp hpair
  obtain ⟨-, hask⟩ := hrun.kept.1 e he
  obtain ⟨who, query, before⟩ := e
  cases query with
  | checkAndRecord keyId digest now =>
    cases hanswer
    exact ⟨_, hask.1⟩
  | _ => cases hanswer

/-- What requests come to depends on nothing but the order in which those that
verify ask the guard. -/
theorem KeyedRun.outcome_eq (hrun : KeyedRun state requests w c)
    (hrun' : KeyedRun state requests w c') (horder : guardOrder c.log = guardOrder c'.log) :
    c.state.replay = c'.state.replay ∧ ∀ i out out', (c.left i).outcome = some out →
      (c'.left i).outcome = some out' → out = out' := by
  obtain ⟨ids, hids⟩ := exists_ids state requests w.db
  have hevents := guardEvents_eq hids hrun.chained.2 fun e he => (hrun.kept.1 e he).2
  have hevents' := guardEvents_eq hids hrun'.chained.2 fun e he => (hrun'.kept.1 e he).2
  rw [horder, ← hevents', ← hrun.chained.1, ← hrun'.chained.1] at hevents
  obtain ⟨hanswers, hreplay⟩ := Prod.mk.inj hevents
  refine ⟨hreplay, fun i out out' hout hout' => ?_⟩
  rw [hrun.kept.2 i out hout, hrun'.kept.2 i out' hout', guardAnswers_heard, guardAnswers_heard,
    hanswers]

end Interleaved

/-- Whoever asks, and whenever: the guard gains a signature only by a request
that presents it under the key it was made with, and over whose own bytes it is
the MAC under that key's secret. Requests that do not verify change the outcome
of no other, put into a run of requests one after the other, or among requests
at the same time, as long as the others ask the guard in the same order. -/
theorem unverified_harmless (state : AppState) (w : World) :
    (∀ (ι : Type) [DecidableEq ι] (requests : ι → KeyedRequest)
        (c : Config Op AppError ApiKey World ι), KeyedRun state requests w c →
      ∀ e ∈ c.log, ∀ entry ∈ (e.after Op.exec).replay.seen, entry ∉ e.before.replay.seen →
        (requests e.who).Verifies state w.db entry.1) ∧
    (∀ run run' : List KeyedRequest,
      Machine.Padded (fun r : KeyedRequest => ∀ id, ¬r.Verifies state w.db id) run run' →
      Machine.Padded (fun e : KeyedRequest × Except AppError ApiKey =>
          ∀ id, ¬e.1.Verifies state w.db id)
        ((keyedMachine state).transcript w run) ((keyedMachine state).transcript w run')) ∧
    ∀ (ι : Type) [DecidableEq ι] (requests : ι → KeyedRequest) (inserted : ι → Bool)
      (c c' : Config Op AppError ApiKey World ι),
      (∀ i, inserted i = true → ∀ id, ¬(requests i).Verifies state w.db id) →
      KeyedRun state requests w c → KeyedRun state requests w c' →
      (guardOrder c.log).filter (!inserted ·) = (guardOrder c'.log).filter (!inserted ·) →
      ∀ i out out', (c.left i).outcome = some out → (c'.left i).outcome = some out' →
        out = out' := by
  refine ⟨fun ι _ requests c hrun e he entry hafter hnew => hrun.gains he hafter hnew,
    fun _ _ => keyed_padded, ?_⟩
  intro ι _ requests inserted c c' hinserted hrun hrun' horder
  have hnone : ∀ c : Config Op AppError ApiKey World ι, KeyedRun state requests w c →
      (guardOrder c.log).filter (!inserted ·) = guardOrder c.log := by
    intro c hrun
    refine List.filter_eq_self.mpr fun i hi => ?_
    obtain ⟨id, hid⟩ := hrun.verifies_of_guardOrder hi
    cases hi' : inserted i with
    | false => rfl
    | true => exact absurd hid (hinserted i hi' id)
  rw [hnone c hrun, hnone c' hrun'] at horder
  exact (hrun.outcome_eq hrun' horder).2

section Sample

open Sample

/-- The parent's request to mint its daughter, signed. -/
def signedMint : KeyedRequest :=
  ⟨clock, parentKey, .v4 0, none, signed "/keys" daughterBody daughterSignature⟩

/-- The same request without a signature. -/
def unsignedMint : KeyedRequest := ⟨clock, parentKey, .v4 0, none, bearer "/keys" parentKey⟩

/-- However often an unsigned request goes before it, the signed one has the
outcome it has by itself. -/
theorem unverified_harmless_unsigned :
    Machine.Padded (fun e : KeyedRequest × Except AppError ApiKey =>
        ∀ id, ¬e.1.Verifies state withParent.db id)
      ((keyedMachine state).transcript withParent [signedMint])
      ((keyedMachine state).transcript withParent [unsignedMint, unsignedMint, signedMint]) := by
  have hunsigned : ∀ id, ¬unsignedMint.Verifies state withParent.db id := by
    rintro id ⟨_, provided, _, _, -, -, hprovided, -⟩
    have hnone : unsignedMint.req.headers.getStr signatureHeader = none := by decide
    rw [hnone] at hprovided
    cases hprovided
  exact (unverified_harmless state withParent).2.1 [signedMint] _
    (.put hunsigned (.put hunsigned (.keep .nil)))

end Sample

end HookExecutor
