import HookExecutor.Verification.KeyEffects
import HookExecutor.Verification.Runs
import HookExecutor.Verification.Sample

/-!
# The master stays the master

Over any run of requests the table has one master row, the one the first start
minted. Its network binding is the only thing about it that moves, besides the
time of the edit, and only by its own hand.
-/

namespace HookExecutor

def Database.masters (db : Database) : List ApiKey := db.apiKeys.filter (·.isMaster)

/-- The same row, but for its network binding and the time of the last edit. -/
def ApiKey.SameButBoundIps (m m' : ApiKey) : Prop :=
  m' = { m with boundIps := m'.boundIps, updatedAt := m'.updatedAt }

namespace ApiKey

variable {m m' m'' : ApiKey}

theorem sameButBoundIps_refl (m : ApiKey) : m.SameButBoundIps m := rfl

theorem SameButBoundIps.trans (h : m.SameButBoundIps m') (h' : m'.SameButBoundIps m'') :
    m.SameButBoundIps m'' := by
  rw [SameButBoundIps, h', h]

end ApiKey

/-- There is exactly one master row, and the pin names it. -/
theorem World.Sound.masters {w : World} (h : w.Sound) :
    ∃ m ∈ w.db.apiKeys, w.db.masters = [m] ∧ w.pinned = some m.id := by
  obtain ⟨m, hm, hmaster, -, hpinned⟩ := h.master
  refine ⟨m, hm, ?_, hpinned⟩
  have hnodup : w.db.masters.Nodup := (List.Nodup.of_map _ h.wellFormed.keyIds).filter _
  have hall : ∀ k ∈ w.db.masters, k = m := by
    intro k hk
    obtain ⟨hmem, hkm⟩ := List.mem_filter.mp hk
    exact h.wellFormed.master_unique hmem hm hkm hmaster
  have hone : m ∈ w.db.masters := List.mem_filter.mpr ⟨hm, hmaster⟩
  exact List.perm_singleton.mp ((List.perm_ext_iff_of_nodup hnodup (List.nodup_singleton m)).mpr
    fun k => ⟨fun hk => List.mem_singleton.mpr (hall k hk), fun hk => by
      rwa [List.mem_singleton.mp hk]⟩)

/-- One request leaves one master, and moves its binding only for itself. -/
theorem KeyStep.masters {w : World} {key m : ApiKey} {request : AdminRequest}
    {rows : List ApiKey} (h : w.Sound)
    (hkey : key ∈ w.db.apiKeys) (hm : w.db.masters = [m]) (hstep : KeyStep key request w.db rows) :
    ∃ m', rows.filter (·.isMaster) = [m'] ∧ m.SameButBoundIps m' ∧ (m' = m ∨ key = m) := by
  have hfound : m ∈ w.db.masters := by
    rw [hm]
    exact List.mem_singleton_self m
  obtain ⟨hmem, hmaster⟩ := List.mem_filter.mp hfound
  cases hstep with
  | kept => exact ⟨m, hm, m.sameButBoundIps_refl, .inl rfl⟩
  | created row fresh ordinary daughter =>
    refine ⟨m, ?_, m.sameButBoundIps_refl, .inl rfl⟩
    rw [List.filter_append, show w.db.apiKeys.filter (·.isMaster) = [m] from hm]
    simp [ordinary]
  | @edited target u mem may =>
    have hkept : (fun k : ApiKey => k.isMaster) ∘ u.at_ target.id = fun k => k.isMaster := by
      funext k
      simp only [Function.comp_apply, ApiKeyUpdate.at_]
      split <;> rfl
    refine ⟨u.at_ target.id m, ?_, ?_⟩
    · rw [List.filter_map, hkept, show w.db.apiKeys.filter (·.isMaster) = [m] from hm]
      rfl
    · by_cases hid : m.id = target.id
      · obtain rfl := h.wellFormed.eq_of_id hmem mem hid
        obtain ⟨hcaller, hbound⟩ := may.resolve_left (by simp [hmaster])
        refine ⟨?_, .inr (h.wellFormed.eq_of_id hkey hmem hcaller)⟩
        rw [ApiKeyUpdate.at_, if_pos (by simp), hbound]
        rfl
      · have hsame : u.at_ target.id m = m := if_neg (by simpa using hid)
        rw [hsame]
        exact ⟨m.sameButBoundIps_refl, .inl rfl⟩
  | @removed id payload target asked deletes =>
    refine ⟨m, ?_, m.sameButBoundIps_refl, .inl rfl⟩
    obtain ⟨htarget, rfl⟩ := Database.apiKeyById_mem deletes.found
    have hout : m.id ∉ w.db.subtree target.id := by
      intro hswept
      have := h.not_master_of_mem_subtree htarget deletes.ordinary hmem hswept
      simp [hmaster] at this
    rw [List.filter_comm, show w.db.apiKeys.filter (·.isMaster) = [m] from hm]
    simp [hout]

/-- Whatever is asked of it, a process that is between requests keeps its one
master, and only the master itself moves what may be moved of it. -/
theorem World.Sound.serve_masters {w : World} {m : ApiKey} (h : w.Sound)
    (hm : w.db.masters = [m]) (ctx : Context) (clock : AuthClock) (req : Request) :
    ∃ m', ((HookExecutor.serve ctx clock req).run Op.exec w).2.db.masters = [m'] ∧
      m.SameButBoundIps m' ∧
        (m' = m ∨ ∃ request w₁, (HookExecutor.authenticate ctx clock req).run Op.exec w =
        (.ok (.admin m request), w₁)) := by
  rcases serve_agree_or_admin ctx clock req w with
    ⟨-, hkept⟩ | ⟨key, request, w₁, hauth, hdb, hserved⟩
  · refine ⟨m, ?_, m.sameButBoundIps_refl, .inl rfl⟩
    exact (congrArg (List.filter _) (hkept .apiKeys (by decide))).trans hm
  · obtain ⟨-, hsound, hmem⟩ := h.authenticated hauth
    have hstep : KeyStep key request w₁.db _ :=
      handleAdmin_keyStep ctx request hsound.wellFormed
    rw [← hdb] at hm
    obtain ⟨m', hm', hsame, hself⟩ := hstep.masters hsound (hmem key rfl) hm
    rw [hserved]
    refine ⟨m', hm', hsame, hself.imp_right ?_⟩
    rintro rfl
    exact ⟨request, w₁, hauth⟩

/-- After any run of requests by anybody there is exactly one master row. It is
the one the start minted, with no more than its network binding and the time of
the last edit changed; and the next request changes them only if it is the
master's own. -/
theorem master_immutable {state : AppState} {w₀ w : World} (hboot : Bootstrapped state w₀)
    (hrun : Runs state (fun _ _ _ _ => True) w₀ w) :
    ∃ m₀ m, w₀.db.masters = [m₀] ∧ w.db.masters = [m] ∧ m₀.SameButBoundIps m ∧
      ∀ ctx clock req, ctx.state = state →
        ((serve ctx clock req).run Op.exec w).2.db.masters = [m] ∨
          ∃ request w₁, (authenticate ctx clock req).run Op.exec w =
            (.ok (.admin m request), w₁) := by
  have hreach := hboot.reachable
  obtain ⟨m₀, -, hm₀, -⟩ := hreach.sound.masters
  have hkept : ∃ m, w.db.masters = [m] ∧ m₀.SameButBoundIps m := by
    refine hrun.invariant (J := fun w => ∃ m, w.db.masters = [m] ∧ m₀.SameButBoundIps m) hreach
      ⟨m₀, hm₀, m₀.sameButBoundIps_refl⟩ ?_
    rintro v ctx clock req hv - - ⟨m, hm, hsame⟩
    obtain ⟨m', hm', hsame', -⟩ := hv.sound.serve_masters hm ctx clock req
    exact ⟨m', hm', hsame.trans hsame'⟩
  obtain ⟨m, hm, hsame⟩ := hkept
  refine ⟨m₀, m, hm₀, hm, hsame, fun ctx clock req _ => ?_⟩
  obtain ⟨m', hm', -, hself⟩ :=
    (hrun.reachable hreach).sound.serve_masters hm ctx clock req
  refine hself.imp_left fun heq => ?_
  rw [hm', heq]

section Sample

open Sample

theorem master_immutable_parent :
    ∃ m₀ m, booted.db.masters = [m₀] ∧ withParent.db.masters = [m] ∧ m₀.SameButBoundIps m ∧
      ∀ ctx clock req, ctx.state = Sample.state →
        ((serve ctx clock req).run Op.exec withParent).2.db.masters = [m] ∨
          ∃ request w₁, (authenticate ctx clock req).run Op.exec withParent =
            (.ok (.admin m request), w₁) :=
  master_immutable ⟨start, boot_start⟩
    (.single ⟨ctx 1, clock, mintParent, rfl, trivial, serveAt_mintParent⟩)

end Sample

end HookExecutor
