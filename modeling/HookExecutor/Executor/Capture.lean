import HookExecutor.State

/-!
# Captured output

What a script writes is read from a pipe into a buffer of limited size. Reading
goes on past the limit, so that the script never blocks on a full pipe; what
does not fit is dropped, and the text that is kept says so.
-/

namespace HookExecutor.Executor

open Text

def pipeChunkBytes : Nat := 8192

/-- Bytes that arrive together, at least one of them. -/
structure Chunk where
  bytes : Bytes
  nonempty : bytes ≠ []

/-- What is still to come out of a pipe: chunks, and after them the end of the
stream or a failure. -/
structure Pipe where
  chunks : List Chunk
  failure : Option IoError

namespace Pipe

/-- Everything that is still to come, as one stream. -/
def stream (pipe : Pipe) : Bytes := pipe.chunks.flatMap (·.bytes)

/-- One read into a buffer: as much of the next chunk as fits. No bytes is the
end of the stream. -/
def read (pipe : Pipe) (buffer : Nat) : Except IoError Bytes × Pipe :=
  match pipe with
  | ⟨[], some e⟩ => (.error e, pipe)
  | ⟨[], none⟩ => (.ok [], pipe)
  | ⟨chunk :: rest, failure⟩ =>
    if h : chunk.bytes.length ≤ buffer then (.ok chunk.bytes, ⟨rest, failure⟩)
    else (.ok (chunk.bytes.take buffer),
      ⟨⟨chunk.bytes.drop buffer, by rw [Ne, List.drop_eq_nil_iff]; exact h⟩ :: rest, failure⟩)

/-- A read of what is still to come takes some of it, and leaves the rest. -/
theorem read_ok {pipe rest : Pipe} {buffer : Nat} {bytes : Bytes} (hbuffer : 0 < buffer)
    (h : pipe.read buffer = (.ok bytes, rest)) :
    pipe.stream = bytes ++ rest.stream ∧ (bytes = [] → rest.stream = []) := by
  obtain ⟨_ | ⟨chunk, chunks⟩, _ | e⟩ := pipe
  · cases h
    exact ⟨rfl, fun _ => rfl⟩
  · cases h
  all_goals
    simp only [read] at h
    split at h
    · cases h
      exact ⟨by simp [stream], fun hempty => absurd hempty chunk.nonempty⟩
    · cases h
      refine ⟨by simp [stream, ← List.append_assoc], fun hempty => absurd hempty ?_⟩
      rw [List.take_eq_nil_iff]
      rintro (hzero | hnil)
      · omega
      · exact chunk.nonempty hnil

/-- A read fails only where nothing more is to come. -/
theorem read_error {pipe rest : Pipe} {buffer : Nat} {e : IoError}
    (h : pipe.read buffer = (.error e, rest)) : pipe.stream = [] ∧ rest.stream = [] := by
  obtain ⟨_ | ⟨chunk, chunks⟩, _ | e⟩ := pipe
  · cases h
  · cases h
    exact ⟨rfl, rfl⟩
  all_goals
    simp only [read] at h
    split at h <;> cases h

end Pipe

structure CapturedStream where
  bytes : Bytes
  truncated : Bool
  deriving DecidableEq

/-- Add what was read, up to the limit. -/
def CapturedStream.extend (sink : CapturedStream) (limit : Nat) (read : Bytes) : CapturedStream :=
  let remaining := limit - sink.bytes.length
  if remaining = 0 then { sink with truncated := true }
  else if remaining < read.length then
    { bytes := sink.bytes ++ read.take remaining, truncated := true }
  else { sink with bytes := sink.bytes ++ read }

/-- Drain a pipe into a buffer. -/
def pump (limit : Nat) (pipe : Pipe) (sink : CapturedStream) : CapturedStream × Pipe :=
  match h : pipe.read pipeChunkBytes with
  | (.error _, rest) => (sink, rest)
  | (.ok bytes, rest) =>
    if hbytes : bytes = [] then (sink, rest)
    else
      have hless : rest.stream.length < pipe.stream.length := by
        have hpos := List.length_pos_of_ne_nil hbytes
        rw [(Pipe.read_ok (by decide) h).1, List.length_append]
        omega
      pump limit rest (sink.extend limit bytes)
termination_by pipe.stream.length

section Steps

variable {limit : Nat} {pipe rest : Pipe} {sink : CapturedStream} {bytes : Bytes}

theorem pump_error {e : IoError} (h : pipe.read pipeChunkBytes = (.error e, rest)) :
    pump limit pipe sink = (sink, rest) := by
  rw [pump]
  split
  · rename_i heq
    cases heq.symm.trans h
    rfl
  · rename_i heq
    cases heq.symm.trans h

theorem pump_end (h : pipe.read pipeChunkBytes = (.ok [], rest)) :
    pump limit pipe sink = (sink, rest) := by
  rw [pump]
  split
  · rename_i heq
    cases heq.symm.trans h
  · rename_i heq
    cases heq.symm.trans h
    rfl

theorem pump_next (h : pipe.read pipeChunkBytes = (.ok bytes, rest)) (hbytes : bytes ≠ []) :
    pump limit pipe sink = pump limit rest (sink.extend limit bytes) := by
  rw [pump]
  split
  · rename_i heq
    cases heq.symm.trans h
  · rename_i heq
    cases heq.symm.trans h
    rw [dif_neg hbytes]

end Steps

/-- The text that is kept of a stream. -/
def finishStream (sink : CapturedStream) : String :=
  fromUtf8Lossy sink.bytes ++
    if sink.truncated then "\n[output truncated: exceeded MAX_OUTPUT_BYTES]" else ""

end HookExecutor.Executor
