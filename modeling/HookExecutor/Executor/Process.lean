import Mathlib.Logic.Relation
import HookExecutor.Executor.Capture
import HookExecutor.Executor.Script

/-!
# Supervising the process

A hook's process is spawned in a group of its own. The supervisor waits for it up
to the timeout of the hook, kills the group if that passes first, and then gives
the two tasks that drain its output a moment to see the end of their streams. The
child and whatever it started, the two tasks and the supervisor take their turns
in any order; time is what lets the supervisor go on without the others.
-/

namespace HookExecutor.Executor

/-- How a process ended, as the system reports it. -/
inductive ExitStatus where
  | exited (code : Int)
  | signaled (signal : Nat)
  deriving DecidableEq

namespace ExitStatus

def success (status : ExitStatus) : Bool := status = .exited 0

def code : ExitStatus → Option Int
  | exited code => some code
  | signaled _ => none

def signal : ExitStatus → Option Nat
  | exited _ => none
  | signaled signal => some signal

end ExitStatus

def signalExitCode (status : ExitStatus) : Option Int := status.signal.map fun sig => 128 + sig

def exitCodeOf (status : ExitStatus) : Option Int := status.code.or (signalExitCode status)

def sigkill : Nat := 9

/-- Milliseconds, saturating at the largest value of the column. -/
def elapsedMs (millis : Nat) : Int := if millis ≤ 2147483647 then millis else 2147483647

/-! ### The output -/

/-- One stream and the task that drains it: all that was written to it, what of
that is still in the pipe, whether the last writer is gone, what the task kept,
and whether the task has come to its end. -/
structure Drain where
  written : Bytes
  unread : List Chunk
  closed : Bool
  sink : CapturedStream
  ended : Bool

def Drain.fresh : Drain := ⟨[], [], false, ⟨[], false⟩, false⟩

/-- What happens to a stream. The child need not be the only writer, nor the last. -/
inductive DrainStep (limit : Nat) (d : Drain) : Drain → Prop
  | writes (chunk : Chunk) (isOpen : d.closed = false) : DrainStep limit d
      { d with written := d.written ++ chunk.bytes, unread := d.unread ++ [chunk] }
  | closes (isOpen : d.closed = false) : DrainStep limit d { d with closed := true }
  | reads {bytes : Bytes} {rest : Pipe} (running : d.ended = false) (nonempty : bytes ≠ [])
      (read : (⟨d.unread, none⟩ : Pipe).read pipeChunkBytes = (.ok bytes, rest)) :
      DrainStep limit d { d with unread := rest.chunks, sink := d.sink.extend limit bytes }
  /-- The end of the stream and a failed read are one to the task. -/
  | ends (running : d.ended = false) (nothing : d.unread = []) (closed : d.closed = true) :
      DrainStep limit d { d with ended := true }

/-! ### The supervisor -/

/-- Where the supervisor is. -/
inductive Control where
  | waiting
  | killing
  | reaping
  | joiningOut (status : ExecutionStatus) (exitCode : Option Int)
  | joiningErr (status : ExecutionStatus) (exitCode : Option Int)
  | finished (outcome : ExecutionOutcome)

/-- The child, until it has exited; its streams; the supervisor, and whether it
warned that it did not wait for all of the output. -/
structure Supervision where
  child : Option ExitStatus
  out : Drain
  err : Drain
  control : Control
  warned : Bool

def spawned : Supervision := ⟨none, .fresh, .fresh, .waiting, false⟩

def Supervision.outcome (s : Supervision) (status : ExecutionStatus) (exitCode : Option Int)
    (millis : Nat) : ExecutionOutcome :=
  { status := status
    exitCode := exitCode
    stdout := finishStream s.out.sink
    stderr := finishStream s.err.sink
    durationMs := elapsedMs millis }

/-- What the supervisor does. The daemon may or may not be permitted to signal the
group of the child, which can run as another user. -/
inductive SupervisorStep (killable : Bool) (s : Supervision) : Supervision → Prop
  | waits {status : ExitStatus} (here : s.control = .waiting) (exited : s.child = some status) :
      SupervisorStep killable s
        { s with
          control := .joiningOut (if status.success then .success else .failed)
            (exitCodeOf status) }
  | elapses (here : s.control = .waiting) (running : s.child = none) :
      SupervisorStep killable s { s with control := .killing }
  | kills (here : s.control = .killing) : SupervisorStep killable s
      { s with
        child := if killable then s.child.or (some (.signaled sigkill)) else s.child
        control := .reaping }
  | reaps {status : ExitStatus} (here : s.control = .reaping) (exited : s.child = some status) :
      SupervisorStep killable s { s with control := .joiningOut .timeout (exitCodeOf status) }
  | joinsOut {status : ExecutionStatus} {exitCode : Option Int}
      (here : s.control = .joiningOut status exitCode) (ended : s.out.ended = true) :
      SupervisorStep killable s { s with control := .joiningErr status exitCode }
  | leavesOut {status : ExecutionStatus} {exitCode : Option Int}
      (here : s.control = .joiningOut status exitCode) :
      SupervisorStep killable s { s with control := .joiningErr status exitCode, warned := true }
  | joinsErr {status : ExecutionStatus} {exitCode : Option Int}
      (here : s.control = .joiningErr status exitCode) (ended : s.err.ended = true)
      (millis : Nat) : SupervisorStep killable s
      { s with control := .finished (s.outcome status exitCode millis) }
  | leavesErr {status : ExecutionStatus} {exitCode : Option Int}
      (here : s.control = .joiningErr status exitCode) (millis : Nat) : SupervisorStep killable s
      { s with control := .finished (s.outcome status exitCode millis), warned := true }

/-- One turn: of the supervisor, of the child, of a stream, or of the system, when
it cannot tell what became of the child. -/
inductive Step (killable : Bool) (limit : Nat) (s : Supervision) : Supervision → Prop
  | supervisor {s' : Supervision} (step : SupervisorStep killable s s') : Step killable limit s s'
  | exits (status : ExitStatus) (running : s.child = none) :
      Step killable limit s { s with child := some status }
  | out {d : Drain} (step : DrainStep limit s.out d) : Step killable limit s { s with out := d }
  | err {d : Drain} (step : DrainStep limit s.err d) : Step killable limit s { s with err := d }
  | waitFails (here : s.control = .waiting) :
      Step killable limit s { s with control := .joiningOut .failed none }
  | reapFails (here : s.control = .reaping) :
      Step killable limit s { s with control := .joiningOut .timeout none }

/-- The states a process and its supervisor can come to. -/
def Supervised (killable : Bool) (limit : Nat) (s : Supervision) : Prop :=
  Relation.ReflTransGen (Step killable limit) spawned s

/-- What running a program can come to: a failed spawn is a failed execution. -/
inductive RunsTo (os : Os) (program : String) (limit : Nat) : ExecutionOutcome → Prop
  | spawnFails (e : IoError) (millis : Nat) : RunsTo os program limit
      { status := .failed
        exitCode := none
        stdout := ""
        stderr := (classifyIoError os program e true).detail
        durationMs := elapsedMs millis }
  | finishes {killable : Bool} {s : Supervision} {outcome : ExecutionOutcome}
      (run : Supervised killable limit s) (done : s.control = .finished outcome) :
      RunsTo os program limit outcome

end HookExecutor.Executor
