import HookExecutor.Verification.SignedRequests

/-!
# The freshness window, exactly

The distance of a timestamp from the clock is machine arithmetic, and what an
overflow does is the build's choice: a debug build panics, a release build
wraps around. Both decide exactly what the window says for every timestamp
whose distance fits the machine's width, and neither does for any other.
-/

namespace HookExecutor

open Text

/-- The two ways the service is built. -/
inductive BuildProfile where
  | debug | release
  deriving DecidableEq

/-- An `i64` result as a build computes it; `none` is a panic. -/
def BuildProfile.i64 (build : BuildProfile) (n : Int) : Option Int :=
  match build with
  | .debug => if InI64 n then some n else none
  | .release => some (wrapI64 n)

/-- `validateTimestamp` in a build; `none` is a panic. -/
def validateTimestampIn (build : BuildProfile) (raw : String) (maxAgeSeconds : Int)
    (now : DateTime) : Option (Except AppError Unit) :=
  match parseI64 (trim raw) with
  | none =>
    some (.error (.unauthorized s!"{timestampHeader} must be a Unix timestamp in seconds"))
  | some presented => do
    let distance ← build.i64 (unixSeconds now - presented)
    let skew ← build.i64 distance.natAbs
    return if maxAgeSeconds < skew then
        .error (.unauthorized (s!"Request timestamp is outside the permitted {maxAgeSeconds}s " ++
          s!"window (off by {skew}s); check the client's clock, or re-sign the request"))
      else .ok ()

/-- The release build is the one the rest of the development runs. -/
theorem validateTimestampIn_release (raw : String) (maxAge : Int) (now : DateTime) :
    validateTimestampIn .release raw maxAge now = some (validateTimestamp raw maxAge now) := by
  unfold validateTimestampIn validateTimestamp
  cases parseI64 (trim raw) <;> rfl

variable {raw : String} {maxAge : Int} {now : DateTime} {presented n : Int}

theorem BuildProfile.i64_of_inI64 (build : BuildProfile) (h : InI64 n) :
    build.i64 n = some n := by
  cases build with
  | debug => exact if_pos h
  | release => exact congrArg some (wrapI64_of_inI64 h)

theorem BuildProfile.debug_i64_of_not (h : ¬InI64 n) : BuildProfile.debug.i64 n = none :=
  if_neg h

variable (maxAge) in
/-- Where the distance fits, no build overflows and the window is exact. -/
theorem validateTimestampIn_of_fits (build : BuildProfile)
    (hparse : parseI64 (trim raw) = some presented)
    (hfits : |unixSeconds now - presented| < 2 ^ 63) :
    ∃ r, validateTimestampIn build raw maxAge now = some r ∧
      (r = .ok () ↔ |unixSeconds now - presented| ≤ maxAge) := by
  have hdistance : InI64 (unixSeconds now - presented) := by
    rw [Int.abs_eq_natAbs] at hfits
    unfold InI64
    omega
  have hskew : InI64 (unixSeconds now - presented).natAbs := by
    rw [Int.abs_eq_natAbs] at hfits
    unfold InI64
    omega
  unfold validateTimestampIn
  simp only [hparse, build.i64_of_inI64 hdistance, build.i64_of_inI64 hskew, Option.bind_eq_bind,
    Option.bind_some, Option.pure_def, Option.some.injEq, exists_eq_left', Int.abs_eq_natAbs]
  split <;> rename_i hcompare
  · simp only [reduceCtorEq, false_iff]
    omega
  · simp only [true_iff]
    omega

/-- Where it does not, the debug build panics. -/
theorem validateTimestampIn_debug_of_overflow (hparse : parseI64 (trim raw) = some presented)
    (hover : 2 ^ 63 ≤ |unixSeconds now - presented|) :
    validateTimestampIn .debug raw maxAge now = none := by
  unfold validateTimestampIn
  simp only [hparse]
  rw [Int.abs_eq_natAbs] at hover
  by_cases hdistance : InI64 (unixSeconds now - presented)
  · -- only the least number fits and has no absolute value
    have habs : ¬InI64 (unixSeconds now - presented).natAbs := by
      unfold InI64
      omega
    rw [BuildProfile.i64_of_inI64 _ hdistance, Option.bind_eq_bind, Option.bind_some,
      BuildProfile.debug_i64_of_not habs, Option.bind_none]
  · rw [BuildProfile.debug_i64_of_not hdistance, Option.bind_eq_bind, Option.bind_none]

/-- The release build compares whatever the distance wraps to. -/
theorem validateTimestampIn_release_ok (hparse : parseI64 (trim raw) = some presented) :
    validateTimestampIn .release raw maxAge now = some (.ok ()) ↔
      skew now presented ≤ maxAge := by
  rw [validateTimestampIn_release]
  unfold validateTimestamp
  simp only [hparse, Option.some.injEq]
  split <;> rename_i hcompare
  · simp only [reduceCtorEq, false_iff]
    omega
  · simp only [true_iff]
    omega

/-- Every build answers, and accepts exactly the timestamps inside the window,
if and only if the timestamp's distance from the clock fits the machine. -/
theorem freshness_exact_iff (raw : String) (maxAge : Int) (now : DateTime) :
    (∀ build, ∃ r, validateTimestampIn build raw maxAge now = some r ∧
        (r = .ok () ↔ WithinWindow now maxAge raw)) ↔
      ∀ presented, parseI64 (trim raw) = some presented →
        |unixSeconds now - presented| < 2 ^ 63 := by
  constructor
  · intro h presented hparse
    by_contra hover
    obtain ⟨r, hr, -⟩ := h .debug
    rw [validateTimestampIn_debug_of_overflow hparse (by omega)] at hr
    cases hr
  · intro hfits build
    cases hparse : parseI64 (trim raw) with
    | none =>
      refine ⟨_, by simp only [validateTimestampIn, hparse]; rfl, ?_⟩
      simp [WithinWindow, hparse]
    | some presented =>
      obtain ⟨r, hr, hiff⟩ := validateTimestampIn_of_fits maxAge build hparse
        (hfits presented hparse)
      refine ⟨r, hr, hiff.trans ?_⟩
      simp [WithinWindow, hparse]

/-- The timestamp half the machine's range before the clock: no build measures
it, and the one that is deployed accepts it. -/
theorem farthest_timestamp_accepted :
    validateTimestampIn .release "-9223372035154775808" 300 (1700000000 * nanosPerSecond) =
        some (.ok ()) ∧
      validateTimestampIn .debug "-9223372035154775808" 300 (1700000000 * nanosPerSecond) =
        none ∧
      ¬WithinWindow (1700000000 * nanosPerSecond) 300 "-9223372035154775808" := by
  have hparse : parseI64 (trim "-9223372035154775808") = some (-9223372035154775808) := by
    decide
  refine ⟨?_, ?_, ?_⟩
  · rw [validateTimestampIn_release_ok hparse]
    decide
  · exact validateTimestampIn_debug_of_overflow hparse (by decide)
  · rintro ⟨presented, hpresented, hwithin⟩
    rw [hparse] at hpresented
    obtain rfl := Option.some.inj hpresented
    revert hwithin
    decide

end HookExecutor
