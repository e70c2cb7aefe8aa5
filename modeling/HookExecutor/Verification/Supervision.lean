import HookExecutor.Executor.Process
import HookExecutor.Verification.OutputCapture

/-!
# What the supervisor reports

Whatever order the child, its output, the two tasks and the supervisor take their
turns in, the outcome that is reported says how the child ended, and the output
in it is the beginning of what was written, all of it if no warning was given.
The supervisor needs nobody to come to its end, as long as it may signal the
child.
-/

namespace HookExecutor.Executor

/-- The text that is kept of so many bytes. -/
def keptText (limit : Nat) (seen : Bytes) : String :=
  finishStream ⟨seen.take limit, limit < seen.length⟩

section Streams

variable {limit : Nat} {d d' : Drain} {sink : CapturedStream} {seen : Bytes}

theorem Captures.finishStream (h : Captures limit seen sink) :
    finishStream sink = keptText limit seen := by
  have hkept : Captures limit seen ⟨seen.take limit, limit < seen.length⟩ := ⟨rfl, by simp⟩
  rw [h.unique hkept, keptText]

/-- What the task has kept is of what it has read, and it only ends where nothing
more can come. -/
structure Drain.Sound (limit : Nat) (d : Drain) : Prop where
  captures : ∃ seen, d.written = seen ++ d.unread.flatMap (·.bytes) ∧ Captures limit seen d.sink
  ended : d.ended = true → d.unread = [] ∧ d.closed = true

theorem Drain.sound_fresh : Drain.fresh.Sound limit where
  captures := ⟨[], rfl, .empty limit⟩
  ended := by
    intro h
    cases h

theorem DrainStep.sound (hstep : DrainStep limit d d') (h : d.Sound limit) : d'.Sound limit := by
  obtain ⟨⟨seen, hwritten, hcaptures⟩, hended⟩ := h
  cases hstep with
  | writes chunk isOpen =>
    refine ⟨⟨seen, ?_, hcaptures⟩, ?_⟩
    · simp [hwritten]
    · intro hdone
      rw [(hended hdone).2] at isOpen
      cases isOpen
  | closes isOpen =>
    exact ⟨⟨seen, hwritten, hcaptures⟩, fun hdone => ⟨(hended hdone).1, rfl⟩⟩
  | @reads bytes rest running nonempty read =>
    refine ⟨⟨seen ++ bytes, ?_, hcaptures.extend nonempty⟩, ?_⟩
    · have hstream := (Pipe.read_ok (by decide) read).1
      rw [hwritten, List.append_assoc]
      exact congrArg (seen ++ ·) hstream
    · intro hdone
      rw [show d.ended = true from hdone] at running
      cases running
  | ends running nothing closed =>
    exact ⟨⟨seen, hwritten, hcaptures⟩, fun _ => ⟨nothing, closed⟩⟩

theorem DrainStep.written (hstep : DrainStep limit d d') : d.written <+: d'.written := by
  cases hstep with
  | writes chunk isOpen => exact List.prefix_append _ _
  | closes isOpen => exact List.prefix_rfl
  | reads running nonempty read => exact List.prefix_rfl
  | ends running nothing closed => exact List.prefix_rfl

/-- A stream whose task has ended is done with. -/
theorem Drain.Sound.not_step (h : d.Sound limit) (hended : d.ended = true) :
    ¬DrainStep limit d d' := by
  obtain ⟨-, hclosed⟩ := h.ended hended
  intro hstep
  cases hstep with
  | writes chunk isOpen => simp [hclosed] at isOpen
  | closes isOpen => simp [hclosed] at isOpen
  | reads running nonempty read => simp [hended] at running
  | ends running nothing closed => simp [hended] at running

/-- A text that was kept of the beginning of a stream. -/
def Kept (limit : Nat) (d : Drain) (text : String) : Prop :=
  ∃ seen, seen <+: d.written ∧ text = keptText limit seen

theorem Drain.Sound.kept (h : d.Sound limit) : Kept limit d (finishStream d.sink) := by
  obtain ⟨seen, hwritten, hcaptures⟩ := h.captures
  exact ⟨seen, hwritten ▸ List.prefix_append _ _, hcaptures.finishStream⟩

theorem Drain.Sound.kept_all (h : d.Sound limit) (hended : d.ended = true) :
    finishStream d.sink = keptText limit d.written := by
  obtain ⟨seen, hwritten, hcaptures⟩ := h.captures
  rw [(h.ended hended).1, List.flatMap_nil, List.append_nil] at hwritten
  rw [hwritten]
  exact hcaptures.finishStream

theorem Kept.step {text : String} (hkept : Kept limit d text) (hstep : DrainStep limit d d') :
    Kept limit d' text := by
  obtain ⟨seen, hseen, htext⟩ := hkept
  exact ⟨seen, hseen.trans hstep.written, htext⟩

end Streams

/-- A task that has ended kept what it would have kept of the whole stream, had it
been there from the start. -/
theorem drained_apart {limit : Nat} {d : Drain}
    (hrun : Relation.ReflTransGen (DrainStep limit) Drain.fresh d) (hended : d.ended = true)
    {pipe : Pipe} (hstream : pipe.stream = d.written) :
    d.sink = (pump limit pipe ⟨[], false⟩).1 := by
  have hsound : d.Sound limit := by
    clear hended hstream
    induction hrun with
    | refl => exact Drain.sound_fresh
    | tail _ hstep ih => exact hstep.sound ih
  obtain ⟨seen, hwritten, hcaptures⟩ := hsound.captures
  rw [(hsound.ended hended).1, List.flatMap_nil, List.append_nil] at hwritten
  have hpump := ((Captures.empty limit).pump pipe).1
  rw [List.nil_append, hstream, hwritten] at hpump
  exact hcaptures.unique hpump

/-! ### The verdict -/

/-- What is reported of a child that has, or has not, exited. An exit code is
missing only where the system could not tell. -/
inductive Verdict (killable : Bool) : Option ExitStatus → ExecutionStatus → Option Int → Prop
  | success : Verdict killable (some (.exited 0)) .success (some 0)
  | failed {status : ExitStatus} (hfailed : status ≠ .exited 0) :
      Verdict killable (some status) .failed (exitCodeOf status)
  | unknown (child : Option ExitStatus) : Verdict killable child .failed none
  | timeout (status : ExitStatus) : Verdict killable (some status) .timeout (exitCodeOf status)
  | unreaped {child : Option ExitStatus} (hdead : killable = true → child ≠ none) :
      Verdict killable child .timeout none

section Verdicts

variable {killable : Bool} {child : Option ExitStatus} {status : ExecutionStatus}
  {exitCode : Option Int}

theorem verdict_waits (exit : ExitStatus) : Verdict killable (some exit)
    (if exit.success then .success else .failed) (exitCodeOf exit) := by
  by_cases hsuccess : exit = .exited 0
  · subst hsuccess
    exact .success
  · rw [if_neg (by simpa [ExitStatus.success] using hsuccess)]
    exact .failed hsuccess

/-- A child exits once. -/
theorem Verdict.exits {exit : ExitStatus} (h : Verdict killable none status exitCode) :
    Verdict killable (some exit) status exitCode := by
  cases h with
  | unknown => exact .unknown _
  | unreaped _ => exact .unreaped fun _ hnone => by cases hnone

theorem exitCodeOf_eq_zero {exit : ExitStatus} : exitCodeOf exit = some 0 ↔ exit = .exited 0 := by
  cases exit with
  | exited code => simp [exitCodeOf, ExitStatus.code]
  | signaled signal =>
    have hcode : exitCodeOf (.signaled signal) = some (128 + (signal : Int)) := rfl
    rw [hcode, Option.some_inj]
    refine ⟨fun hzero => ?_, fun hexit => by cases hexit⟩
    omega

/-- The status and the exit code agree. -/
theorem Verdict.agree (h : Verdict killable child status exitCode) :
    (status = .success → exitCode = some 0) ∧ (status = .failed → exitCode ≠ some 0) := by
  cases h with
  | success => simp
  | failed hfailed => simp [exitCodeOf_eq_zero, hfailed]
  | unknown => simp
  | timeout => simp
  | unreaped => simp

end Verdicts

/-! ### The supervisor -/

variable {killable : Bool} {limit : Nat} {s s' : Supervision} {o : ExecutionOutcome}

/-- What an outcome says of the process it was reported for. -/
structure Reports (killable : Bool) (limit : Nat) (s : Supervision) (o : ExecutionOutcome) :
    Prop where
  verdict : Verdict killable s.child o.status o.exitCode
  stdout : Kept limit s.out o.stdout
  stderr : Kept limit s.err o.stderr
  complete : s.warned = false →
    (s.out.ended = true ∧ o.stdout = keptText limit s.out.written) ∧
      s.err.ended = true ∧ o.stderr = keptText limit s.err.written
  duration : 0 ≤ o.durationMs ∧ o.durationMs ≤ 2147483647

/-- What holds wherever the supervisor is. -/
def ControlSound (killable : Bool) (limit : Nat) (s : Supervision) : Prop :=
  match s.control with
  | .waiting => s.warned = false
  | .killing => s.warned = false
  | .reaping => s.warned = false ∧ (killable = true → s.child ≠ none)
  | .joiningOut status exitCode => s.warned = false ∧ Verdict killable s.child status exitCode
  | .joiningErr status exitCode => (s.warned = false → s.out.ended = true) ∧
      Verdict killable s.child status exitCode
  | .finished o => Reports killable limit s o

structure Supervision.Sound (killable : Bool) (limit : Nat) (s : Supervision) : Prop where
  out : s.out.Sound limit
  err : s.err.Sound limit
  control : ControlSound killable limit s

theorem elapsedMs_bounds (millis : Nat) : 0 ≤ elapsedMs millis ∧ elapsedMs millis ≤ 2147483647 := by
  unfold elapsedMs
  split <;> omega

theorem sound_spawned : spawned.Sound killable limit where
  out := Drain.sound_fresh
  err := Drain.sound_fresh
  control := rfl

/-- The supervisor's own turns. -/
theorem SupervisorStep.sound (hstep : SupervisorStep killable s s') (h : s.Sound killable limit) :
    s'.Sound killable limit := by
  obtain ⟨hout, herr, hcontrol⟩ := h
  cases hstep with
  | @waits status here exited =>
    simp only [ControlSound, here] at hcontrol
    refine ⟨hout, herr, hcontrol, ?_⟩
    rw [exited]
    exact verdict_waits status
  | elapses here running =>
    simp only [ControlSound, here] at hcontrol
    exact ⟨hout, herr, hcontrol⟩
  | kills here =>
    simp only [ControlSound, here] at hcontrol
    refine ⟨hout, herr, hcontrol, ?_⟩
    rintro rfl
    cases hchild : s.child <;> simp
  | @reaps status here exited =>
    simp only [ControlSound, here] at hcontrol
    refine ⟨hout, herr, hcontrol.1, ?_⟩
    rw [exited]
    exact .timeout status
  | joinsOut here ended =>
    simp only [ControlSound, here] at hcontrol
    exact ⟨hout, herr, fun _ => ended, hcontrol.2⟩
  | leavesOut here =>
    simp only [ControlSound, here] at hcontrol
    refine ⟨hout, herr, ?_, hcontrol.2⟩
    intro hwarned
    cases hwarned
  | joinsErr here ended millis =>
    simp only [ControlSound, here] at hcontrol
    obtain ⟨houtEnded, hverdict⟩ := hcontrol
    exact ⟨hout, herr, hverdict, hout.kept, herr.kept,
      fun hquiet => ⟨⟨houtEnded hquiet, hout.kept_all (houtEnded hquiet)⟩, ended,
        herr.kept_all ended⟩, elapsedMs_bounds millis⟩
  | leavesErr here millis =>
    simp only [ControlSound, here] at hcontrol
    exact ⟨hout, herr, hcontrol.2, hout.kept, herr.kept, fun hwarned => (by cases hwarned),
      elapsedMs_bounds millis⟩

/-- A stream moves under the supervisor's eyes, and under a report. -/
theorem Step.sound_out {d : Drain} (hstep : DrainStep limit s.out d)
    (h : s.Sound killable limit) : Supervision.Sound killable limit { s with out := d } := by
  obtain ⟨hout, herr, hcontrol⟩ := h
  refine ⟨hstep.sound hout, herr, ?_⟩
  unfold ControlSound at hcontrol ⊢
  cases hwhere : s.control with
  | waiting => simpa only [hwhere] using hcontrol
  | killing => simpa only [hwhere] using hcontrol
  | reaping => simpa only [hwhere] using hcontrol
  | joiningOut status exitCode => simpa only [hwhere] using hcontrol
  | joiningErr status exitCode =>
    simp only [hwhere] at hcontrol ⊢
    exact ⟨fun hquiet => absurd hstep (hout.not_step (hcontrol.1 hquiet)), hcontrol.2⟩
  | finished o =>
    simp only [hwhere] at hcontrol ⊢
    exact ⟨hcontrol.verdict, hcontrol.stdout.step hstep, hcontrol.stderr,
      fun hquiet => absurd hstep (hout.not_step (hcontrol.complete hquiet).1.1),
      hcontrol.duration⟩

theorem Step.sound_err {d : Drain} (hstep : DrainStep limit s.err d)
    (h : s.Sound killable limit) : Supervision.Sound killable limit { s with err := d } := by
  obtain ⟨hout, herr, hcontrol⟩ := h
  refine ⟨hout, hstep.sound herr, ?_⟩
  unfold ControlSound at hcontrol ⊢
  cases hwhere : s.control with
  | waiting => simpa only [hwhere] using hcontrol
  | killing => simpa only [hwhere] using hcontrol
  | reaping => simpa only [hwhere] using hcontrol
  | joiningOut status exitCode => simpa only [hwhere] using hcontrol
  | joiningErr status exitCode => simpa only [hwhere] using hcontrol
  | finished o =>
    simp only [hwhere] at hcontrol ⊢
    exact ⟨hcontrol.verdict, hcontrol.stdout, hcontrol.stderr.step hstep,
      fun hquiet => absurd hstep (herr.not_step (hcontrol.complete hquiet).2.1),
      hcontrol.duration⟩

/-- The child exits at any time; what is already reported of it still stands. -/
theorem Step.sound_exits (exit : ExitStatus) (running : s.child = none)
    (h : s.Sound killable limit) :
    Supervision.Sound killable limit { s with child := some exit } := by
  obtain ⟨hout, herr, hcontrol⟩ := h
  refine ⟨hout, herr, ?_⟩
  unfold ControlSound at hcontrol ⊢
  cases hwhere : s.control with
  | waiting => simpa only [hwhere] using hcontrol
  | killing => simpa only [hwhere] using hcontrol
  | reaping =>
    simp only [hwhere] at hcontrol ⊢
    exact ⟨hcontrol.1, fun _ hnone => by cases hnone⟩
  | joiningOut status exitCode =>
    simp only [hwhere, running] at hcontrol ⊢
    exact ⟨hcontrol.1, hcontrol.2.exits⟩
  | joiningErr status exitCode =>
    simp only [hwhere, running] at hcontrol ⊢
    exact ⟨hcontrol.1, hcontrol.2.exits⟩
  | finished o =>
    simp only [hwhere] at hcontrol ⊢
    exact ⟨Verdict.exits (running ▸ hcontrol.verdict), hcontrol.stdout, hcontrol.stderr,
      hcontrol.complete, hcontrol.duration⟩

/-- One turn of anybody. -/
theorem Step.sound (hstep : Step killable limit s s') (h : s.Sound killable limit) :
    s'.Sound killable limit := by
  cases hstep with
  | supervisor step => exact step.sound h
  | exits exit running => exact Step.sound_exits exit running h
  | out step => exact Step.sound_out step h
  | err step => exact Step.sound_err step h
  | waitFails here =>
    obtain ⟨hout, herr, hcontrol⟩ := h
    simp only [ControlSound, here] at hcontrol
    exact ⟨hout, herr, hcontrol, .unknown _⟩
  | reapFails here =>
    obtain ⟨hout, herr, hcontrol⟩ := h
    simp only [ControlSound, here] at hcontrol
    exact ⟨hout, herr, hcontrol.1, .unreaped hcontrol.2⟩

theorem Supervised.sound (hrun : Supervised killable limit s) : s.Sound killable limit := by
  induction hrun with
  | refl => exact sound_spawned
  | tail _ hstep ih => exact hstep.sound ih

/-- The supervisor comes to its end without any turn of anybody else. -/
def FinishesAlone (killable : Bool) (s : Supervision) : Prop :=
  ∃ t o, Relation.ReflTransGen (SupervisorStep killable) s t ∧ t.control = .finished o

theorem FinishesAlone.head (hstep : SupervisorStep killable s s')
    (h : FinishesAlone killable s') : FinishesAlone killable s := by
  obtain ⟨t, o, hsteps, hdone⟩ := h
  exact ⟨t, o, .head hstep hsteps, hdone⟩

theorem finishesAlone_joiningErr {status : ExecutionStatus} {exitCode : Option Int}
    (here : s.control = .joiningErr status exitCode) : FinishesAlone killable s :=
  .head (.leavesErr here 0) ⟨_, _, .refl, rfl⟩

theorem finishesAlone_joiningOut {status : ExecutionStatus} {exitCode : Option Int}
    (here : s.control = .joiningOut status exitCode) : FinishesAlone killable s :=
  .head (.leavesOut here) (finishesAlone_joiningErr rfl)

theorem finishesAlone_reaping (here : s.control = .reaping) (hdead : s.child ≠ none) :
    FinishesAlone killable s := by
  obtain ⟨exit, hexit⟩ := Option.ne_none_iff_exists'.mp hdead
  exact .head (.reaps here hexit) (finishesAlone_joiningOut rfl)

theorem finishesAlone_killing (here : s.control = .killing) : FinishesAlone true s := by
  refine .head (.kills here) (finishesAlone_reaping rfl ?_)
  cases hchild : s.child <;> simp

theorem finishesAlone_waiting (here : s.control = .waiting) : FinishesAlone true s := by
  cases hchild : s.child with
  | none => exact .head (.elapses here hchild) (finishesAlone_killing rfl)
  | some exit => exact .head (.waits here hchild) (finishesAlone_joiningOut rfl)

/-- A supervisor that waits for a child it could not kill can do nothing but wait. -/
theorem not_finishesAlone (here : s.control = .reaping) (running : s.child = none) :
    ¬FinishesAlone killable s := by
  rintro ⟨t, o, hsteps, hdone⟩
  obtain rfl | ⟨s', hstep, -⟩ := Relation.ReflTransGen.cases_head hsteps
  · rw [here] at hdone
    cases hdone
  · cases hstep <;> simp_all

/-- The supervisor can come to its end from wherever it is, whatever the child and
the streams do not do, if and only if the daemon may signal the child. -/
theorem finishesAlone_iff (killable : Bool) (limit : Nat) :
    (∀ s, Supervised killable limit s → FinishesAlone killable s) ↔ killable = true := by
  constructor
  · intro hall
    cases killable with
    | true => rfl
    | false =>
      have hrun : Supervised false limit { spawned with control := .reaping } := by
        refine .tail (.tail .refl (.supervisor (.elapses rfl rfl))) ?_
        exact .supervisor (.kills rfl)
      exact absurd (hall _ hrun) (not_finishesAlone rfl rfl)
  · rintro rfl s hrun
    have hcontrol := hrun.sound.control
    unfold ControlSound at hcontrol
    cases hwhere : s.control with
    | waiting => exact finishesAlone_waiting hwhere
    | killing => exact finishesAlone_killing hwhere
    | reaping =>
      simp only [hwhere] at hcontrol
      exact finishesAlone_reaping hwhere (hcontrol.2 trivial)
    | joiningOut status exitCode => exact finishesAlone_joiningOut hwhere
    | joiningErr status exitCode => exact finishesAlone_joiningErr hwhere
    | finished o => exact ⟨s, o, .refl, hwhere⟩

end HookExecutor.Executor
