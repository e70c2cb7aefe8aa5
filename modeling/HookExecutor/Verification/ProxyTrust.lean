import HookExecutor.Lib.Transcript
import HookExecutor.Proxies

/-!
# Which proxies are trusted

The lookups a run makes are its log. The cache holds, for each name, the last
entry of the log, and the flattened copy holds the literal networks and what
those entries name; every critical section keeps that, however calls overlap.
So what a section hands out is as recent as the log, and a section only hands
something out when each name's last lookup is fresh or its own.
-/

namespace HookExecutor

open ResolvedProxies TrustedProxies

/-! ### The table of hosts -/

namespace ResolvedProxies

variable {hosts : List (String × HostnameEntry)} {name other : String} {entry : HostnameEntry}

@[simp] theorem findHost_insertHost_self :
    findHost (insertHost hosts name entry) name = some entry := by
  simp [findHost, insertHost]

theorem findHost_insertHost_of_ne (h : other ≠ name) :
    findHost (insertHost hosts name entry) other = findHost hosts other := by
  simp only [findHost, insertHost]
  rw [List.find?_cons_of_neg (by simpa using h.symm), List.find?_filter]
  congr 2
  funext host
  by_cases hhost : host.1 = other
  · simp [hhost, h]
  · simp [hhost]

theorem nodup_insertHost (h : (hosts.map (·.1)).Nodup) :
    ((insertHost hosts name entry).map (·.1)).Nodup := by
  refine List.nodup_cons.mpr ⟨?_, h.sublist (List.filter_sublist.map _)⟩
  intro hmem
  obtain ⟨host, hhost, heq⟩ := List.mem_map.mp hmem
  have hother := (List.mem_filter.mp hhost).2
  simp [heq] at hother

/-- With one entry a name, the table is what its names are mapped to. -/
theorem mem_iff_findHost (h : (hosts.map (·.1)).Nodup) :
    (name, entry) ∈ hosts ↔ findHost hosts name = some entry := by
  constructor
  · intro hmem
    induction hosts with
    | nil => cases hmem
    | cons host hosts ih =>
      obtain ⟨hnew, htail⟩ := List.nodup_cons.mp h
      rcases List.mem_cons.mp hmem with rfl | hlater
      · simp [findHost]
      · have hne : host.1 ≠ name := by
          rintro rfl
          exact hnew (List.mem_map_of_mem (f := (·.1)) hlater)
        have hfound := ih htail hlater
        simpa [findHost, List.find?_cons, hne] using hfound
  · intro hfound
    obtain ⟨host, hhost, rfl⟩ := Option.map_eq_some_iff.mp hfound
    have hname : host.1 = name := by simpa using List.find?_some hhost
    subst hname
    exact List.mem_of_find?_eq_some hhost

end ResolvedProxies

/-! ### Lookups -/

/-- The last lookup of a name in a log. -/
def lastLookup (log : List (String × Probe)) (name : String) : Option Probe :=
  (log.reverse.find? fun query => query.1 == name).map (·.2)

/-- What a lookup leaves in the table. -/
def entryOf (probe : Probe) : HostnameEntry :=
  ⟨(resolveHostname probe.lookup).1, (resolveHostname probe.lookup).2, probe.storedAt⟩

theorem lastLookup_nil (name : String) : lastLookup [] name = none := rfl

theorem lastLookup_snoc_self (log : List (String × Probe)) (name : String) (probe : Probe) :
    lastLookup (log ++ [(name, probe)]) name = some probe := by
  simp [lastLookup]

theorem lastLookup_snoc_of_ne (log : List (String × Probe)) {name other : String} (probe : Probe)
    (h : other ≠ name) : lastLookup (log ++ [(name, probe)]) other = lastLookup log other := by
  simp [lastLookup, h.symm]

/-- A lookup that failed, or found no address, contributes nothing. -/
theorem resolveHostname_of_failure {lookup : Lookup} (h : (resolveHostname lookup).2 = false) :
    (resolveHostname lookup).1 = [] := by
  cases lookup with
  | none => rfl
  | some addrs =>
    cases addrs with
    | nil => rfl
    | cons addr addrs => cases h

variable {proxies : TrustedProxies}

/-! ### One refresh -/

/-- A refresh that went through `done`, of a table that records `log`. -/
structure Refreshing (proxies : TrustedProxies) (force : Bool) (probe : Nat → Probe)
    (log : List (String × Probe)) (hosts : List (String × HostnameEntry))
    (done : List (String × Nat)) (r : Refresh) : Prop where
  distinct : (r.hosts.map (·.1)).Nodup
  records : ∀ name, findHost r.hosts name = (lastLookup (log ++ r.queries) name).map entryOf
  unchanged : r.changed = false → r.hosts = hosts ∧ r.queries = []
  asked : ∀ query ∈ r.queries, query.1 ∈ done.map (·.1)
  /-- Each name was looked up, or fresh when it was looked at. -/
  covered : ∀ host ∈ done, ∃ last, lastLookup (log ++ r.queries) host.1 = some last ∧
    ((host.1, last) ∈ r.queries ∨ ∃ visited ∈ done,
      (entryOf last).isFresh proxies.ttl proxies.negativeTtl (probe visited.2).checkedAt = true)

variable {force : Bool} {probe : Nat → Probe} {log : List (String × Probe)}
  {hosts : List (String × HostnameEntry)} {done : List (String × Nat)} {r : Refresh}

/-- A name whose entry is fresh: nothing is looked up. -/
theorem Refreshing.skip (h : Refreshing proxies force probe log hosts done r)
    {host : String × Nat} {r' : Refresh}
    (hfresh : proxies.freshAt r.hosts host.1 (probe host.2).checkedAt = true)
    (hhosts : r'.hosts = r.hosts) (hchanged : r'.changed = r.changed)
    (hqueries : r'.queries = r.queries) :
    Refreshing proxies force probe log hosts (done ++ [host]) r' where
  distinct := by
    rw [hhosts]
    exact h.distinct
  records := by
    rw [hhosts, hqueries]
    exact h.records
  unchanged := by
    rw [hhosts, hchanged, hqueries]
    exact h.unchanged
  asked := by
    rw [hqueries, List.map_append]
    intro query hquery
    exact List.mem_append_left _ (h.asked query hquery)
  covered := by
    rw [hqueries]
    intro visited hvisited
    rcases List.mem_append.mp hvisited with hdone | hnew
    · obtain ⟨last, hlast, hcase⟩ := h.covered visited hdone
      refine ⟨last, hlast, hcase.imp id ?_⟩
      rintro ⟨earlier, hearlier, hf⟩
      exact ⟨earlier, List.mem_append_left _ hearlier, hf⟩
    · obtain rfl := List.mem_singleton.mp hnew
      unfold freshAt at hfresh
      rw [h.records visited.1] at hfresh
      cases hlast : lastLookup (log ++ r.queries) visited.1 with
      | none =>
        rw [hlast] at hfresh
        cases hfresh
      | some last =>
        rw [hlast] at hfresh
        exact ⟨last, rfl, .inr ⟨visited, List.mem_append_right _ hnew, hfresh⟩⟩

/-- A name that is looked up: its entry is replaced. -/
theorem Refreshing.lookUp (h : Refreshing proxies force probe log hosts done r)
    {host : String × Nat} {failed : List String} :
    Refreshing proxies force probe log hosts (done ++ [host])
      { hosts := insertHost r.hosts host.1 (entryOf (probe host.2))
        changed := true
        failed := failed
        queries := r.queries ++ [(host.1, probe host.2)] } where
  distinct := nodup_insertHost h.distinct
  records := by
    intro name
    rw [← List.append_assoc]
    by_cases hname : name = host.1
    · subst hname
      rw [findHost_insertHost_self, lastLookup_snoc_self]
      rfl
    · rw [findHost_insertHost_of_ne hname, lastLookup_snoc_of_ne _ _ hname]
      exact h.records name
  unchanged := fun hchanged => by cases hchanged
  asked := by
    rw [List.map_append]
    intro query hquery
    rcases List.mem_append.mp hquery with hearlier | hnew
    · exact List.mem_append_left _ (h.asked query hearlier)
    · obtain rfl := List.mem_singleton.mp hnew
      exact List.mem_append_right _ (List.mem_singleton_self _)
  covered := by
    intro visited hvisited
    rw [← List.append_assoc]
    by_cases hname : visited.1 = host.1
    · rw [hname, lastLookup_snoc_self]
      exact ⟨_, rfl, .inl (List.mem_append_right _ (List.mem_singleton_self _))⟩
    · rw [lastLookup_snoc_of_ne _ _ hname]
      rcases List.mem_append.mp hvisited with hdone | hnew
      · obtain ⟨last, hlast, hcase⟩ := h.covered visited hdone
        refine ⟨last, hlast, hcase.imp (List.mem_append_left _) ?_⟩
        rintro ⟨earlier, hearlier, hfresh⟩
        exact ⟨earlier, List.mem_append_left _ hearlier, hfresh⟩
      · exact absurd (congrArg (·.1) (List.mem_singleton.mp hnew)) hname

theorem Refreshing.step (h : Refreshing proxies force probe log hosts done r)
    (host : String × Nat) :
    Refreshing proxies force probe log hosts (done ++ [host])
      (proxies.refreshHost force probe r host) := by
  unfold refreshHost
  split
  · next hskip =>
    have hfresh := (Bool.and_eq_true _ _ ▸ hskip).2
    split
    · exact h.skip hfresh rfl rfl rfl
    · exact h.skip hfresh rfl rfl rfl
  · exact h.lookUp

theorem Refreshing.run (h : Refreshing proxies force probe log hosts done r)
    (rest : List (String × Nat)) :
    Refreshing proxies force probe log hosts (done ++ rest)
      (rest.foldl (proxies.refreshHost force probe) r) := by
  induction rest generalizing done r with
  | nil => simpa using h
  | cons host rest ih =>
    have hnext := ih (h.step host)
    rwa [List.append_assoc] at hnext

/-! ### The cache -/

/-- What a log says is trusted: the literal networks, and those the last lookup
of each name named. -/
def Trusted (proxies : TrustedProxies) (log : List (String × Probe)) (network : IpNetwork) : Prop :=
  network ∈ proxies.networks ∨ ∃ name ∈ proxies.hostnames, ∃ last,
    lastLookup log name = some last ∧ network ∈ (resolveHostname last.lookup).1

/-- A cache that records a log, and whose flattened copy is what the log says. -/
structure Coherent (proxies : TrustedProxies) (log : List (String × Probe))
    (cache : ResolvedProxies) : Prop where
  distinct : (cache.hosts.map (·.1)).Nodup
  records : ∀ name, findHost cache.hosts name = (lastLookup log name).map entryOf
  asked : ∀ query ∈ log, query.1 ∈ proxies.hostnames
  merged_iff : ∀ network, network ∈ cache.merged ↔ Trusted proxies log network

theorem coherent_empty (proxies : TrustedProxies) :
    Coherent proxies [] proxies.emptyCache where
  distinct := List.nodup_nil
  records := fun _ => rfl
  asked := fun _ h => by cases h
  merged_iff := by
    intro network
    simp [Trusted, emptyCache, lastLookup_nil]

theorem mem_of_lastLookup {name : String} {last : Probe} (h : lastLookup log name = some last) :
    (name, last) ∈ log := by
  obtain ⟨query, hquery, rfl⟩ := Option.map_eq_some_iff.mp h
  have hname : query.1 = name := by simpa using List.find?_some hquery
  subst hname
  exact List.mem_reverse.mp (List.mem_of_find?_eq_some hquery)

variable {cache : ResolvedProxies}

/-- The refresh of a coherent cache, once it went through every name. -/
theorem Coherent.refreshing (h : Coherent proxies log cache) (force : Bool) (probe : Nat → Probe) :
    Refreshing proxies force probe log cache.hosts proxies.hostnames.zipIdx
      (proxies.refreshed force probe cache) := by
  have hstart : Refreshing proxies force probe log cache.hosts [] ⟨cache.hosts, false, [], []⟩ :=
    { distinct := h.distinct
      records := by
        rw [List.append_nil]
        exact h.records
      unchanged := fun _ => ⟨rfl, rfl⟩
      asked := fun _ hq => by cases hq
      covered := fun _ hq => by cases hq }
  exact hstart.run proxies.hostnames.zipIdx

theorem mem_hostnames_of_zipIdx {name : String}
    (h : name ∈ proxies.hostnames.zipIdx.map (·.1)) : name ∈ proxies.hostnames := by
  simpa using h

/-- The rebuilt copy is what the log says, with the refresh's own lookups. -/
theorem Coherent.refreshStale (h : Coherent proxies log cache) (force : Bool)
    (probe : Nat → Probe) :
    Coherent proxies (log ++ (proxies.refreshed force probe cache).queries)
      (proxies.refreshStale force probe cache) := by
  have hr := h.refreshing force probe
  have hasked : ∀ query ∈ log ++ (proxies.refreshed force probe cache).queries,
      query.1 ∈ proxies.hostnames := by
    intro query hquery
    rcases List.mem_append.mp hquery with hold | hnew
    · exact h.asked query hold
    · exact mem_hostnames_of_zipIdx (hr.asked query hnew)
  refine ⟨hr.distinct, hr.records, hasked, ?_⟩
  intro network
  unfold TrustedProxies.refreshStale
  dsimp only
  cases hchanged : (proxies.refreshed force probe cache).changed with
  | false =>
    rw [if_neg (by simp), (hr.unchanged hchanged).2, List.append_nil]
    exact h.merged_iff network
  | true =>
    rw [if_pos rfl, List.mem_append, List.mem_flatMap, Trusted]
    refine or_congr Iff.rfl ?_
    constructor
    · rintro ⟨⟨name, entry⟩, hmem, hnetwork⟩
      have hfound := (mem_iff_findHost hr.distinct).mp hmem
      rw [hr.records name] at hfound
      obtain ⟨last, hlast, rfl⟩ := Option.map_eq_some_iff.mp hfound
      exact ⟨name, hasked _ (mem_of_lastLookup hlast), last, hlast, hnetwork⟩
    · rintro ⟨name, -, last, hlast, hnetwork⟩
      refine ⟨(name, entryOf last), (mem_iff_findHost hr.distinct).mpr ?_, hnetwork⟩
      rw [hr.records name, hlast]
      rfl

/-- Where every entry is fresh, each name was looked up and is within its TTL. -/
theorem Coherent.of_allFresh (h : Coherent proxies log cache) {clock : Nat → Instant}
    (hfresh : proxies.allFresh cache clock = true) {name : String}
    (hname : name ∈ proxies.hostnames) :
    ∃ last, lastLookup log name = some last ∧ ∃ i,
      (entryOf last).isFresh proxies.ttl proxies.negativeTtl (clock i) = true := by
  obtain ⟨i, hi, rfl⟩ := List.mem_iff_getElem.mp hname
  have hmem : (proxies.hostnames[i], i) ∈ proxies.hostnames.zipIdx :=
    List.mk_mem_zipIdx_iff_getElem?.mpr (List.getElem?_eq_getElem hi)
  have hentry := List.all_eq_true.mp hfresh _ hmem
  unfold freshAt at hentry
  rw [h.records] at hentry
  cases hlast : lastLookup log proxies.hostnames[i] with
  | none =>
    rw [hlast] at hentry
    cases hentry
  | some last =>
    rw [hlast] at hentry
    exact ⟨last, rfl, i, hentry⟩

/-! ### Runs of critical sections -/

/-- One critical section with what it meets. A call of `resolved` is a `read`,
followed by a `write` if that hands out nothing; other calls' sections may come
in between. -/
inductive ProxySection where
  | read (clock : Nat → Instant)
  | write (clock : Nat → Instant) (probe : Nat → Probe)
  | prime (probe : Nat → Probe)

/-- The moments a section reads the clock at. -/
def ProxySection.At (s : ProxySection) (now : Instant) : Prop :=
  match s with
  | read clock => ∃ i, clock i = now
  | write clock probe => ∃ i, clock i = now ∨ (probe i).checkedAt = now
  | prime probe => ∃ i, (probe i).checkedAt = now

def proxyMachine (proxies : TrustedProxies) :
    Machine ResolvedProxies ProxySection SectionResult
  | cache, .read clock => proxies.resolvedRead clock cache
  | cache, .write clock probe => proxies.resolvedWrite clock probe cache
  | cache, .prime probe => proxies.prime probe cache

/-- A whole call is its sections. -/
theorem resolved_eq (proxies : TrustedProxies) (readClock writeClock : Nat → Instant)
    (probe : Nat → Probe) (cache : ResolvedProxies) :
    proxies.resolved readClock writeClock probe cache =
      if (proxyMachine proxies cache (.read readClock)).1.resolved.isSome then
        proxyMachine proxies cache (.read readClock)
      else
        proxyMachine proxies (proxyMachine proxies cache (.read readClock)).2
          (.write writeClock probe) := rfl

/-- The lookups of a run. -/
def queriesOf (past : List (ProxySection × SectionResult)) : List (String × Probe) :=
  past.flatMap (·.2.queries)

variable {past : List (ProxySection × SectionResult)}

/-- Every section leaves the cache coherent with its own lookups added. -/
theorem Coherent.step (h : Coherent proxies log cache) (s : ProxySection) :
    Coherent proxies (log ++ (proxyMachine proxies cache s).1.queries)
      (proxyMachine proxies cache s).2 := by
  have hsame : Coherent proxies (log ++ []) cache := by rwa [List.append_nil]
  cases s with
  | read clock =>
    change Coherent proxies (log ++ (proxies.resolvedRead clock cache).1.queries)
      (proxies.resolvedRead clock cache).2
    unfold resolvedRead
    split
    · exact hsame
    · split
      · exact hsame
      · exact hsame
  | write clock probe =>
    change Coherent proxies (log ++ (proxies.resolvedWrite clock probe cache).1.queries)
      (proxies.resolvedWrite clock probe cache).2
    unfold resolvedWrite
    split
    · exact hsame
    · exact h.refreshStale false probe
  | prime probe =>
    change Coherent proxies (log ++ (proxies.prime probe cache).1.queries)
      (proxies.prime probe cache).2
    unfold TrustedProxies.prime
    split
    · exact hsame
    · exact h.refreshStale true probe

/-- What a section hands out is what the log says, its own lookups included. -/
theorem Coherent.handed_out (h : Coherent proxies log cache) {s : ProxySection}
    {networks : List IpNetwork}
    (hresolved : (proxyMachine proxies cache s).1.resolved = some networks) (network : IpNetwork) :
    network ∈ networks ↔
      Trusted proxies (log ++ (proxyMachine proxies cache s).1.queries) network := by
  cases s with
  | read clock =>
    change (proxies.resolvedRead clock cache).1.resolved = some networks at hresolved
    change _ ↔ Trusted proxies (log ++ (proxies.resolvedRead clock cache).1.queries) network
    unfold resolvedRead at hresolved ⊢
    split at hresolved
    · next hempty =>
      obtain rfl := Option.some.inj hresolved
      have hnone : proxies.hostnames = [] := by simpa using hempty
      rw [if_pos hempty, Trusted]
      simp [hnone]
    · next hnames =>
      rw [if_neg hnames]
      split at hresolved
      · next hfresh =>
        obtain rfl := Option.some.inj hresolved
        rw [if_pos hfresh, List.append_nil]
        exact h.merged_iff network
      · cases hresolved
  | write clock probe =>
    change (proxies.resolvedWrite clock probe cache).1.resolved = some networks at hresolved
    change _ ↔ Trusted proxies (log ++ (proxies.resolvedWrite clock probe cache).1.queries) network
    unfold resolvedWrite at hresolved ⊢
    split at hresolved
    · next hfresh =>
      obtain rfl := Option.some.inj hresolved
      rw [if_pos hfresh, List.append_nil]
      exact h.merged_iff network
    · next hstale =>
      obtain rfl := Option.some.inj hresolved
      rw [if_neg hstale]
      exact (h.refreshStale false probe).merged_iff network
  | prime probe =>
    change (proxies.prime probe cache).1.resolved = some networks at hresolved
    unfold TrustedProxies.prime at hresolved
    split at hresolved
    · cases hresolved
    · cases hresolved

/-- A section that hands something out looked each name up, or found its last
lookup fresh. -/
theorem Coherent.recent (h : Coherent proxies log cache) {s : ProxySection}
    {networks : List IpNetwork}
    (hresolved : (proxyMachine proxies cache s).1.resolved = some networks) {name : String}
    (hname : name ∈ proxies.hostnames) :
    ∃ last, lastLookup (log ++ (proxyMachine proxies cache s).1.queries) name = some last ∧
      ((name, last) ∈ (proxyMachine proxies cache s).1.queries ∨ ∃ now, s.At now ∧
        (entryOf last).isFresh proxies.ttl proxies.negativeTtl now = true) := by
  cases s with
  | read clock =>
    change (proxies.resolvedRead clock cache).1.resolved = some networks at hresolved
    simp only [proxyMachine]
    unfold resolvedRead at hresolved ⊢
    split at hresolved
    · next hempty =>
      have hnone : proxies.hostnames = [] := by simpa using hempty
      rw [hnone] at hname
      cases hname
    · next hnames =>
      rw [if_neg hnames]
      split at hresolved
      · next hfresh =>
        rw [if_pos hfresh, List.append_nil]
        obtain ⟨last, hlast, i, hentry⟩ := h.of_allFresh hfresh hname
        exact ⟨last, hlast, .inr ⟨clock i, ⟨i, rfl⟩, hentry⟩⟩
      · cases hresolved
  | write clock probe =>
    simp only [proxyMachine]
    unfold resolvedWrite
    split
    · next hfresh =>
      rw [List.append_nil]
      obtain ⟨last, hlast, i, hentry⟩ := h.of_allFresh hfresh hname
      exact ⟨last, hlast, .inr ⟨clock i, ⟨i, .inl rfl⟩, hentry⟩⟩
    · obtain ⟨i, hi, rfl⟩ := List.mem_iff_getElem.mp hname
      have hmem : (proxies.hostnames[i], i) ∈ proxies.hostnames.zipIdx :=
        List.mk_mem_zipIdx_iff_getElem?.mpr (List.getElem?_eq_getElem hi)
      obtain ⟨last, hlast, hcase⟩ := (h.refreshing false probe).covered _ hmem
      refine ⟨last, hlast, hcase.imp id ?_⟩
      rintro ⟨visited, -, hfresh⟩
      exact ⟨_, ⟨visited.2, .inr rfl⟩, hfresh⟩
  | prime probe =>
    change (proxies.prime probe cache).1.resolved = some networks at hresolved
    unfold TrustedProxies.prime at hresolved
    split at hresolved
    · cases hresolved
    · cases hresolved

theorem coherent_at {sections : List ProxySection}
    {rest : List (ProxySection × SectionResult)} {s : ProxySection} {result : SectionResult}
    (hrun : (proxyMachine proxies).transcript proxies.emptyCache sections =
      past ++ (s, result) :: rest) :
    ∃ cache, Coherent proxies (queriesOf past) cache ∧
      result = (proxyMachine proxies cache s).1 := by
  obtain ⟨cache, hcache, hresult, -⟩ := Machine.invariant_at (r := fun _ _ => True)
    (I := fun past cache => Coherent proxies (queriesOf past) cache)
    (fun past cache s hcache _ => by
      have hnext := hcache.step s
      simpa [queriesOf] using hnext)
    (coherent_empty proxies) (List.pairwise_of_forall fun _ _ => trivial) hrun
  exact ⟨cache, hcache, hresult⟩

/-- In every run of critical sections, whatever the resolver answers: what is
handed out is the literal networks and, for each name, the addresses of its
last lookup if that succeeded; and that lookup was made by the section itself
or was within its TTL while the section ran. -/
theorem trusted_set (proxies : TrustedProxies) (sections : List ProxySection)
    (past rest : List (ProxySection × SectionResult)) (s : ProxySection) (result : SectionResult)
    (networks : List IpNetwork)
    (hrun : (proxyMachine proxies).transcript proxies.emptyCache sections =
      past ++ (s, result) :: rest)
    (hresolved : result.resolved = some networks) :
    (∀ network, network ∈ networks ↔ network ∈ proxies.networks ∨
      ∃ name ∈ proxies.hostnames, ∃ last,
        lastLookup (queriesOf past ++ result.queries) name = some last ∧
          (resolveHostname last.lookup).2 = true ∧ network ∈ (resolveHostname last.lookup).1) ∧
    ∀ name ∈ proxies.hostnames, ∃ last,
      lastLookup (queriesOf past ++ result.queries) name = some last ∧
        ((name, last) ∈ result.queries ∨ ∃ now, s.At now ∧
          elapsed last.storedAt now <
            if (resolveHostname last.lookup).2 then proxies.ttl else proxies.negativeTtl) := by
  obtain ⟨cache, hcache, rfl⟩ := coherent_at hrun
  constructor
  · intro network
    rw [hcache.handed_out hresolved network, Trusted]
    refine or_congr Iff.rfl ?_
    constructor
    · rintro ⟨name, hname, last, hlast, hmem⟩
      refine ⟨name, hname, last, hlast, ?_, hmem⟩
      by_contra hfailed
      rw [resolveHostname_of_failure (by simpa using hfailed)] at hmem
      cases hmem
    · rintro ⟨name, hname, last, hlast, -, hmem⟩
      exact ⟨name, hname, last, hlast, hmem⟩
  · intro name hname
    obtain ⟨last, hlast, hcase⟩ := hcache.recent hresolved hname
    refine ⟨last, hlast, hcase.imp id ?_⟩
    rintro ⟨now, hnow, hfresh⟩
    exact ⟨now, hnow, of_decide_eq_true hfresh⟩

section Moved

/-- A proxy whose address changed while its entry was cached. -/
def movingProxy : TrustedProxies := ⟨[.hostname "proxy"], 30, 5⟩

def firstLookup : Probe := ⟨0, some [.v4 1], 0⟩
def laterLookup : Probe := ⟨40, some [.v4 2], 40⟩

def movingSections : List ProxySection :=
  [.write (fun _ => 0) fun _ => firstLookup, .write (fun _ => 40) fun _ => laterLookup]

/-- After its entry expired, only the new address is handed out. -/
theorem trusted_set_moved :
    ∃ networks, (proxyMachine movingProxy).transcript movingProxy.emptyCache movingSections =
        [(.write (fun _ => 0) fun _ => firstLookup,
            ⟨some [hostRoute (.v4 1)], [], [("proxy", firstLookup)]⟩),
          (.write (fun _ => 40) fun _ => laterLookup,
            ⟨some networks, [], [("proxy", laterLookup)]⟩)] ∧
      ∀ network, network ∈ networks ↔ network ∈ movingProxy.networks ∨
        ∃ name ∈ movingProxy.hostnames, ∃ last,
          lastLookup [("proxy", firstLookup), ("proxy", laterLookup)] name = some last ∧
            (resolveHostname last.lookup).2 = true ∧
              network ∈ (resolveHostname last.lookup).1 :=
  ⟨_, rfl, (trusted_set movingProxy movingSections
    [(.write (fun _ => 0) fun _ => firstLookup, _)] [] _ _ _ rfl rfl).1⟩

end Moved

end HookExecutor
