import HookExecutor.Executor.Capture

/-!
# What is kept of a script's output

How the output comes in, in many small chunks or in few large ones, leaves no
trace in what is kept: it is the beginning of the stream, up to the limit.
-/

namespace HookExecutor.Executor

/-- What a buffer of this limit holds of the bytes read so far. -/
structure Captures (limit : Nat) (seen : Bytes) (sink : CapturedStream) : Prop where
  bytes : sink.bytes = seen.take limit
  truncated : sink.truncated = true ↔ limit < seen.length

theorem Captures.empty (limit : Nat) : Captures limit [] ⟨[], false⟩ where
  bytes := by rw [List.take_nil]
  truncated := by simp

theorem Captures.unique {limit : Nat} {seen : Bytes} {sink sink' : CapturedStream}
    (h : Captures limit seen sink) (h' : Captures limit seen sink') : sink = sink' := by
  obtain ⟨bytes, truncated⟩ := sink
  obtain ⟨bytes', truncated'⟩ := sink'
  have hbytes : bytes = bytes' := h.bytes.trans h'.bytes.symm
  have htruncated : truncated = truncated' :=
    Bool.eq_iff_iff.mpr (h.truncated.trans h'.truncated.symm)
  rw [hbytes, htruncated]

/-- One read. The buffer was full, or it fills up, or there is room. -/
theorem Captures.extend {limit : Nat} {seen read : Bytes} {sink : CapturedStream}
    (h : Captures limit seen sink) (hread : read ≠ []) :
    Captures limit (seen ++ read) (sink.extend limit read) := by
  have hpos := List.length_pos_of_ne_nil hread
  have hlength : sink.bytes.length = min limit seen.length := by
    rw [h.bytes, List.length_take]
  unfold CapturedStream.extend
  by_cases hfull : limit - sink.bytes.length = 0
  · rw [if_pos hfull]
    refine ⟨?_, iff_of_true rfl ?_⟩
    · rw [List.take_append_of_le_length (by omega)]
      exact h.bytes
    · rw [List.length_append]
      omega
  · have hall : sink.bytes = seen := by
      rw [h.bytes]
      exact List.take_of_length_le (by omega)
    have hroom : limit - sink.bytes.length = limit - seen.length := by rw [hall]
    rw [if_neg hfull]
    by_cases hover : limit - sink.bytes.length < read.length
    · rw [if_pos hover]
      refine ⟨?_, iff_of_true rfl ?_⟩
      · rw [List.take_append, List.take_of_length_le (l := seen) (by omega), hroom, hall]
      · rw [List.length_append]
        omega
    · rw [if_neg hover]
      have hfits : (seen ++ read).length ≤ limit := by
        rw [List.length_append]
        omega
      refine ⟨?_, ?_⟩
      · rw [List.take_of_length_le hfits, hall]
      · rw [h.truncated]
        omega

/-- A whole drain: every read extends what is captured, and the last one finds
nothing left. -/
theorem Captures.pump {limit : Nat} {seen : Bytes} {sink : CapturedStream}
    (h : Captures limit seen sink) (pipe : Pipe) :
    Captures limit (seen ++ pipe.stream) (pump limit pipe sink).1 ∧
      (Executor.pump limit pipe sink).2.stream = [] := by
  induction pipe, sink using pump.induct limit generalizing seen with
  | case1 pipe sink e rest hread =>
    obtain ⟨hnone, hrest⟩ := Pipe.read_error hread
    rw [pump_error hread, hnone, List.append_nil]
    exact ⟨h, hrest⟩
  | case2 pipe sink rest hread =>
    obtain ⟨hstream, hrest⟩ := Pipe.read_ok (by decide) hread
    rw [pump_end hread, hstream, hrest rfl, List.append_nil, List.append_nil]
    exact ⟨h, rfl⟩
  | case3 pipe sink bytes rest hread hbytes _ ih =>
    rw [pump_next hread hbytes, (Pipe.read_ok (by decide) hread).1, ← List.append_assoc]
    exact ih (h.extend hbytes)

/-- Draining a pipe keeps the beginning of its stream up to the limit, says so
exactly if there was more, and reads the stream to its end, in whatever chunks
it came. -/
theorem pump_exact (limit : Nat) (pipe : Pipe) :
    (pump limit pipe ⟨[], false⟩).1.bytes = pipe.stream.take (min limit pipe.stream.length) ∧
    ((pump limit pipe ⟨[], false⟩).1.truncated = true ↔ limit < pipe.stream.length) ∧
    (pump limit pipe ⟨[], false⟩).2.stream = [] := by
  obtain ⟨hcaptured, hdrained⟩ := (Captures.empty limit).pump pipe
  rw [List.nil_append] at hcaptured
  refine ⟨?_, hcaptured.truncated, hdrained⟩
  rw [hcaptured.bytes]
  exact List.take_eq_take_min

/-- Two pipes with one stream are captured alike. -/
theorem pump_independent (limit : Nat) {pipe pipe' : Pipe} (h : pipe.stream = pipe'.stream) :
    (pump limit pipe ⟨[], false⟩).1 = (pump limit pipe' ⟨[], false⟩).1 := by
  have hcaptured := ((Captures.empty limit).pump pipe).1
  rw [h] at hcaptured
  exact hcaptured.unique ((Captures.empty limit).pump pipe').1

end HookExecutor.Executor
