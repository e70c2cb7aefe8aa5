import HookExecutor.Lib.Disturbance
import HookExecutor.Verification.Parties
import HookExecutor.Verification.Sample

/-!
# The pinned identity

Whoever reaches the database may write to it as they please, between any two
statements of the process. What the process holds in memory they do not reach:
once an identity is pinned it stays, it was the only master at the read it comes
from, and nobody else leaves authentication as the master.
-/

namespace HookExecutor

/-- A call that establishes, asks for or applies the pin, or somebody's writes to
the database. -/
inductive PinCall where
  | pinAtBoot (hasIndex : Except DbErr Bool)
  | resolve
  | authenticate (record : ApiKey)
  | tamper (writes : List (Database → Database))

/-- What a call comes to. -/
inductive PinOutcome where
  | booted (identity : Except MasterPinError Uuid)
  | resolved (identity : Option Uuid)
  | principal (key : ApiKey)
  | tampered

/-- Statements and operations of the process, and writes to the database from
outside. -/
abbrev TamperedOp : Type → Type 1 := Disturbed Op (Database → Database)

/-- A write from outside reaches the database and not the memory of the process. -/
def TamperedOp.exec : Interpretation TamperedOp World :=
  Disturbed.exec Op.exec fun write w => { w with db := write w.db }

def PinCall.program : PinCall → Program TamperedOp AppError PinOutcome
  | .pinAtBoot hasIndex => (PinOutcome.booted <$> MasterPin.pinAtBoot hasIndex).within _
  | .resolve => (PinOutcome.resolved <$> resolveMaster).within _
  | .authenticate record => (PinOutcome.principal <$> authenticatePin record).within _
  | .tamper writes => (Program.disturbances writes).bind fun _ => .pure .tampered

/-- Calls and writes in whatever order they come. -/
abbrev Tampered {ι : Type} [DecidableEq ι] (calls : ι → PinCall) (w : World)
    (c : Config TamperedOp AppError PinOutcome World ι) : Prop :=
  Interleaved TamperedOp.exec (fun i => (calls i).program) w c

section Calls

open Program

variable {h : Heard Op}

/-- The read that finds the masters was answered with this row alone. -/
def SoleMaster (h : Heard Op) (id : Uuid) : Prop :=
  ∃ k, Answered h (.selectApiKeys .isMaster .unordered) [k] ∧ k.id = id

/-- The cell of the pin was seen to hold this. -/
def SawPinned (h : Heard Op) (id : Uuid) : Prop := ⟨_, .pinnedMaster, some id⟩ ∈ h

/-- What may be asked: reads, and pinning a key that was the only master. -/
def PinsSole : Heard Op → ∀ β, Op β → Prop
  | h, _, .pinMaster id => SoleMaster h id
  | _, β, q => WritesAmong [] β q

theorem ensures_resolveInner :
    Ensures PinsSole h resolveInner fun h' found => ∀ id, found = .ok id → SoleMaster h' id := by
  refine ⟨by simp [PinsSole, Stmt.write?], fun answer id hid => ?_⟩
  obtain err | _ | ⟨k, _ | ⟨_, _⟩⟩ := answer
  · cases hid
  · cases hid
  · cases hid
    exact ⟨k, List.mem_cons_self, rfl⟩
  · cases hid

theorem ensures_resolveMaster :
    Ensures PinsSole h resolveMaster fun h' found => ∀ id, found = some id → SawPinned h' id := by
  refine ⟨trivial, fun pinned => ?_⟩
  cases pinned with
  | some id =>
    rintro _ ⟨⟩
    exact List.mem_cons_self
  | none =>
    refine ensures_resolveInner.bind fun h' found _ hfound => ?_
    cases found with
    | error e => exact fun id hid => by cases hid
    | ok id =>
      refine ⟨hfound id rfl, fun _ => ⟨trivial, fun seen id hid => ?_⟩⟩
      rw [hid]
      exact List.mem_cons_self

theorem ensures_pinAtBoot (hasIndex : Except DbErr Bool) :
    Ensures PinsSole h (MasterPin.pinAtBoot hasIndex) fun _ _ => True := by
  match hasIndex with
  | .error err => trivial
  | .ok false => trivial
  | .ok true =>
    refine ensures_resolveInner.bind fun h' found _ hfound => ?_
    cases found with
    | error e => trivial
    | ok id => exact ⟨hfound id rfl, fun _ => ⟨trivial, fun _ => trivial⟩⟩

/-- Whoever leaves authentication as the master was compared with the pin. -/
theorem ensures_authenticatePin (record : ApiKey) :
    Ensures PinsSole h (authenticatePin record) fun h' key =>
      key.isMaster = true → SawPinned h' key.id := by
  unfold authenticatePin
  cases hmaster : record.isMaster with
  | false => exact fun h => by simp [hmaster] at h
  | true =>
    refine ensures_resolveMaster.bind fun h' found _ hfound => ?_
    change ((if found = some record.id then record else { record with isMaster := false }).isMaster
      = true → SawPinned h' _)
    split
    · rename_i hself
      exact fun _ => hfound _ hself
    · exact fun h => by cases h

/-- What a call may come to, by what it was answered. -/
def PinOutcome.Right (h : Heard Op) : PinOutcome → Prop
  | .principal key => key.isMaster = true → SawPinned h key.id
  | _ => True

theorem PinCall.ensures (call : PinCall) :
    call.program.Ensures (Disturbed.Allowed PinsSole) []
      fun h outcome => outcome.Right (Disturbed.undisturbed h) := by
  cases call with
  | pinAtBoot hasIndex =>
    exact Ensures.within (P := PinOutcome.Right) (ensures_pinAtBoot hasIndex).map
  | resolve =>
    exact Ensures.within (P := PinOutcome.Right)
      (ensures_resolveMaster.mono fun _ _ _ _ => trivial).map
  | authenticate record =>
    exact Ensures.within (P := PinOutcome.Right) (ensures_authenticatePin record).map
  | tamper writes =>
    exact (ensures_disturbances writes).bind fun _ _ _ _ => trivial

end Calls

section Runs

variable {ι : Type} [DecidableEq ι] {calls : ι → PinCall} {w : World}
  {c : Config TamperedOp AppError PinOutcome World ι} {i : ι} {id : Uuid}

omit [DecidableEq ι] in
/-- No query and no write from outside takes the pin away. -/
theorem pinned_kept (e : Event TamperedOp World ι) (h : e.before.pinned = some id) :
    (e.after TamperedOp.exec).pinned = some id := by
  obtain ⟨who, query, world⟩ := e
  change (TamperedOp.exec _ query world).2.pinned = some id
  cases query with
  | disturb write => exact h
  | query q =>
    cases q with
    | pinMaster id' =>
      change world.pinned.or (some id') = some id
      rw [show world.pinned = some id from h, Option.some_or]
    | tryAcquire keyId permits => exact (world.tryAcquire_pinned keyId permits).trans h
    | release permit => exact (world.release_pinned permit).trans h
    | _ => exact h

/-- Once established, the identity never changes. -/
theorem Tampered.sticky (hrun : Tampered calls w c) {e : Event TamperedOp World ι} (he : e ∈ c.log)
    (h : (e.after TamperedOp.exec).pinned = some id) : c.state.pinned = some id := by
  obtain ⟨later, early, hlog⟩ := List.append_of_mem he
  obtain ⟨hstate, hchained⟩ := hrun.chained
  rw [hlog] at hstate hchained
  rw [hstate]
  exact hchained.kept (φ := fun w => w.pinned = some id) (fun e => pinned_kept e) h

omit [DecidableEq ι] in
/-- A query that establishes an identity pins it. -/
theorem pins_of_established {e : Event TamperedOp World ι} (hbefore : e.before.pinned = none)
    (hafter : (e.after TamperedOp.exec).pinned = some id) :
    ∃ who world, e = ⟨who, .query (.pinMaster id), world⟩ := by
  obtain ⟨who, query, world⟩ := e
  change (TamperedOp.exec _ query world).2.pinned = some id at hafter
  change world.pinned = none at hbefore
  cases query with
  | disturb write => exact absurd (hbefore.symm.trans hafter) nofun
  | query q =>
    cases q with
    | pinMaster id' =>
      change world.pinned.or (some id') = some id at hafter
      rw [hbefore, Option.none_or, Option.some.injEq] at hafter
      exact ⟨who, world, by rw [hafter]⟩
    | tryAcquire keyId permits =>
      exact absurd (hbefore.symm.trans ((world.tryAcquire_pinned keyId permits).symm.trans hafter))
        nofun
    | release permit =>
      exact absurd (hbefore.symm.trans ((world.release_pinned permit).symm.trans hafter)) nofun
    | _ => exact absurd (hbefore.symm.trans hafter) nofun

/-- The identity is that of the only master, as the call that pinned it read it. -/
theorem Tampered.established (hrun : Tampered calls w c) (hfresh : w.pinned = none)
    (h : c.state.pinned = some id) :
    ∃ later e early, c.log = later ++ e :: early ∧ e.before.pinned = none ∧
      (e.after TamperedOp.exec).pinned = some id ∧
      ∃ a ∈ early, a.who = e.who ∧ ∃ k : ApiKey, k.id = id ∧
        a.exchange TamperedOp.exec =
          ⟨_, .query (.db (.selectApiKeys .isMaster .unordered)), .ok [k]⟩ ∧
        a.before.db.apiKeys.filter (·.isMaster) = [k] := by
  obtain ⟨hstate, hchained⟩ := hrun.chained
  have hall : Chained TamperedOp.exec w (c.log ++ []) := by simpa using hchained
  obtain ⟨e, he, hbefore, hafter⟩ := hall.exists_break (φ := fun w : World => w.pinned = none)
    hfresh (by
      rw [List.append_nil, ← hstate, h]
      nofun)
  obtain ⟨id', hid'⟩ := Option.ne_none_iff_exists'.mp hafter
  obtain rfl : id' = id := Option.some.inj ((hrun.sticky he hid').symm.trans h)
  obtain ⟨later, early, hlog⟩ := List.append_of_mem he
  have hok := (Interleaved.ensures hrun fun i => (calls i).ensures).2 later e early hlog
  obtain ⟨who, world, rfl⟩ := pins_of_established hbefore hid'
  obtain ⟨k, hanswered, hk⟩ := hok
  obtain ⟨a, ha, hwho, hexchange⟩ := mem_heard.mp (Disturbed.mem_undisturbed.mp hanswered)
  refine ⟨later, _, early, hlog, hbefore, hid', a, ha, hwho, k, hk, hexchange, ?_⟩
  exact Except.ok.inj (Prod.mk.inj (Event.exec_of_exchange hexchange)).1

/-- Whoever leaves authentication as the master is the pinned key. -/
theorem Tampered.principal (hrun : Tampered calls w c) {key : ApiKey}
    (hleft : c.left i = .pure (.principal key)) (hmaster : key.isMaster = true) :
    c.state.pinned = some key.id := by
  have hright := (Interleaved.ensures hrun fun i => (calls i).ensures).1 i
  rw [hleft] at hright
  obtain ⟨a, ha, -, hexchange⟩ := mem_heard.mp (Disturbed.mem_undisturbed.mp (hright hmaster))
  obtain ⟨hanswer, hsame⟩ := Prod.mk.inj (Event.exec_of_exchange hexchange)
  exact hrun.sticky ha (hsame ▸ hanswer)

/-- However calls and writes from outside are placed: an identity once pinned
never changes, it is that of the only master at the read it was pinned by, and
every record that leaves authentication as the master has it, so no two of them
differ. -/
theorem master_pin_unique (hfresh : w.pinned = none) (hrun : Tampered calls w c) :
    (∀ e ∈ c.log, ∀ id, (e.after TamperedOp.exec).pinned = some id → c.state.pinned = some id) ∧
    (∀ id, c.state.pinned = some id →
      ∃ later e early, c.log = later ++ e :: early ∧ e.before.pinned = none ∧
        (e.after TamperedOp.exec).pinned = some id ∧
        ∃ a ∈ early, a.who = e.who ∧ ∃ k : ApiKey, k.id = id ∧
          a.exchange TamperedOp.exec =
            ⟨_, .query (.db (.selectApiKeys .isMaster .unordered)), .ok [k]⟩ ∧
          a.before.db.apiKeys.filter (·.isMaster) = [k]) ∧
    (∀ i key, c.left i = .pure (.principal key) → key.isMaster = true →
      c.state.pinned = some key.id) ∧
    ∀ i j key key', c.left i = .pure (.principal key) → c.left j = .pure (.principal key') →
      key.isMaster = true → key'.isMaster = true → key.id = key'.id :=
  ⟨fun _ he _ h => hrun.sticky he h, fun _ h => hrun.established hfresh h,
    fun _ _ hleft hmaster => hrun.principal hleft hmaster,
    fun _ _ _ _ hleft hleft' hmaster hmaster' => Option.some.inj
      ((hrun.principal hleft hmaster).symm.trans (hrun.principal hleft' hmaster'))⟩

end Runs

section Sample

open Sample

/-- The process before it has pinned anybody. -/
def unpinned : World := { deployment with pinned := none }

/-- The master's record is authenticated while somebody makes every key a master. -/
def promotionRace : Bool → PinCall
  | false => .authenticate Sample.masterRow
  | true => .tamper [fun db =>
      { db with apiKeys := db.apiKeys.map fun k => { k with isMaster := true } }]

theorem master_pin_unique_race : ∃ c : Config TamperedOp AppError PinOutcome World Bool,
    Tampered promotionRace unpinned c ∧ c.state.pinned = some 1 ∧
      (c.state.db.apiKeys.filter (·.isMaster)).length = 3 ∧
      ∃ a ∈ c.log, ∃ k : ApiKey, k.id = 1 ∧ a.before.db.apiKeys.filter (·.isMaster) = [k] := by
  obtain ⟨e, c, hrun, -, -, -, hafter, hstate⟩ := Interleaved.overtaken (I := TamperedOp.exec)
    (g := fun i => (promotionRace i).program) (s := unpinned) (show false ≠ true by decide) 2 1
    (by decide)
  have hpinned : c.state.pinned = some 1 := by
    rw [hstate, hafter]
    decide
  obtain ⟨later, e', early, hlog, -, -, a, ha, -, k, hk, -, hsole⟩ :=
    (master_pin_unique rfl hrun).2.1 1 hpinned
  refine ⟨c, hrun, hpinned, ?_, a, by simp [hlog, ha], k, hk, hsole⟩
  rw [hstate, hafter]
  decide

end Sample

end HookExecutor
