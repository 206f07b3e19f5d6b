import FolkCore.Ext.Spawn

/-!
# Starting the server on a PHP without threads

`start_server` warns when more than one worker is asked of a PHP that is not
thread-safe, and starts the pool with the configuration as it is. The runtime looks at
the configured count alone, so the second supervisor gets a thread of its own.
-/

namespace FolkCore.Ext

open Bridge Function Lib Pool

variable {serde : SerdeJson} {cfg : WorkersConfig}

/-- `start_server`: its warning and the pool that it starts. -/
def startServer (serde : SerdeJson) (isZts : Bool) (cfg : WorkersConfig) :
    Option String × Hosted serde :=
  (if decide (1 < cfg.count) && !isZts then
      some "multi-worker requested but PHP is NTS; only 1 worker will be used"
    else none,
    Hosted.start serde cfg)

/-- No PHP worker but the main thread is used, and that one behind one handle. -/
structure Hosted.MainOnly (s : Hosted serde) : Prop where
  main : ∀ w thread, s.threads w = some thread → thread = .main
  once : ∀ w w' thread thread', s.threads w = some thread → s.threads w' = some thread' → w = w'

/-- A pool with one supervisor at most has one handle at most. -/
theorem Hosted.Lone.mainOnly {s : Hosted serde} (h : s.Lone cfg) : s.MainOnly := by
  have drawn {w : Nat} {thread : Thread} (hthread : s.threads w = some thread) :
      w < s.pool.handles := by
    by_contra hge
    exact absurd ((h.unused w (Nat.le_of_not_lt hge)).symm.trans hthread) nofun
  rcases h.pair with ⟨_, hzero⟩ | ⟨_, hone, hmain⟩
  · constructor
    · intro w thread hthread
      have := drawn hthread
      omega
    · intro w w' thread thread' hthread
      have := drawn hthread
      omega
  · constructor
    · intro w thread hthread
      have hlt := drawn hthread
      obtain rfl : w = 0 := by omega
      exact Option.some.inj (hthread.symm.trans hmain)
    · intro w w' thread thread' hthread hthread'
      have hlt := drawn hthread
      have hlt' := drawn hthread'
      omega

/-- A supervisor without a worker can call `spawn`, and gets the handle it returns. -/
theorem Hosted.boots {s : Hosted serde} {i : Nat} (hi : i < cfg.count)
    (hphase : (s.pool.slots i).phase = .loopTop) (hworker : (s.pool.slots i).worker = none)
    {cwd : Option String} {c : Connection} {rt : ExtensionRuntime}
    (hspawn : s.runtime.spawn cwd = (.ok c, rt)) (hfresh : c.handle.isFresh = true) :
    ∃ t, Reachable (Hosted.step serde cfg) s t ∧ t.runtime = rt ∧
      t.threads = update s.threads s.pool.handles (some c.thread) ∧
      t.pool.handles = s.pool.handles + 1 ∧ ∀ j ≠ i, t.pool.slots j = s.pool.slots j := by
  let slot := s.pool.slots i
  let entered : Slot := { slot with
    polled := true
    info := slot.current s.pool.now
    bootGeneration := s.pool.generation
    phase := .spawning }
  have henter : Hosted.step serde cfg s (.other (.supervise i .enterLoop)) =
      some { s with pool := s.pool.supervise i (entered, []) } := by
    simp [Hosted.step, returnsSpawn, Pool.step, hi, Slot.step, Slot.enterLoop, hphase, hworker,
      State.view, entered, slot]
  let mid : Hosted serde := { s with pool := s.pool.supervise i (entered, []) }
  have hslot : mid.pool.slots i = entered := by simp [mid]
  let readied : Slot × List (Command (extensionRuntime serde)) :=
    ({ entered with phase := .readying s.pool.handles (s.pool.now + cfg.bootTimeout) },
      [.spawn ((extensionRuntime serde).ready c.handle), .note (.spawned i s.pool.handles)])
  have hspawns : (extensionRuntime serde).spawns c.handle = true := hfresh
  have hpool : Pool.step serde cfg mid.pool (.supervise i (.spawned c.handle)) =
      some (mid.pool.supervise i readied) := by
    have hstep :
        (mid.pool.slots i).step cfg i mid.pool.view (.spawned c.handle) = some readied := by
      rw [hslot]
      simp only [Slot.step, entered, Slot.spawned, hspawns]
      rfl
    simp only [Pool.step, hi, if_true, hstep, Option.map_some]
  have hboot : Hosted.step serde cfg mid (.spawn i cwd) =
      some { pool := mid.pool.supervise i readied, runtime := rt
             threads := update s.threads s.pool.handles (some c.thread) } := by
    have hruntime : mid.runtime.spawn cwd = (.ok c, rt) := hspawn
    simp only [Hosted.step, hruntime, hpool, Option.map_some]
    rfl
  refine ⟨_, .next (.next .start trivial henter) trivial hboot, rfl, rfl, rfl, ?_⟩
  intro j hj
  simp [mid, hj]

/-- With an empty vector and more than one worker configured, `spawn` starts a thread. -/
theorem spawn_zts {rt : ExtensionRuntime} (hchannels : rt.channels = [])
    (hcount : 1 < rt.config.count) (path : String) :
    rt.spawn (some path) = (.ok ⟨.fresh rt.nextWorkerId true, .zts rt.nextWorkerId⟩,
      { rt with nextWorkerId := rt.nextWorkerId + 1 }) := by
  simp [ExtensionRuntime.spawn, ExtensionRuntime.spawnZtsWorker, ExtensionRuntime.drawWorkerId,
    hchannels, hcount]

variable (serde) in
/-- With two supervisors the first takes the main thread, and a thread is started for the
second. -/
theorem second_thread_started (hcount : 1 < cfg.count) :
    ∃ s, Reachable (Hosted.step serde cfg) (Hosted.start serde cfg) s ∧
      s.threads 1 = some (.zts 2) := by
  have hmain : (Hosted.start serde cfg).runtime.channels = [⟨.main⟩] := rfl
  obtain ⟨s, hs, hruntime, _, hhandles, hslots⟩ :=
    Hosted.boots (s := .start serde cfg) (i := 0) (Nat.lt_of_succ_lt hcount) rfl rfl
      (spawn_main hmain none) rfl
  have hslot : s.pool.slots 1 = Slot.start := hslots 1 (by decide)
  have hone : s.pool.handles = 1 := hhandles
  have hnext : s.runtime.nextWorkerId = 2 := by rw [hruntime]; rfl
  have hempty : s.runtime.channels = [] := by rw [hruntime]
  have hconfig : 1 < s.runtime.config.count := by rw [hruntime]; exact hcount
  have hspawn := spawn_zts hempty hconfig "/srv/app"
  obtain ⟨t, ht, _, hthreads, _⟩ :=
    Hosted.boots (i := 1) hcount (by rw [hslot]; rfl) (by rw [hslot]; rfl) hspawn rfl
  refine ⟨t, hs.trans ht, ?_⟩
  rw [hthreads, hone, hnext, update_self]

/-- On a PHP that is not thread-safe, the pool of `start_server` uses the main thread
alone in every run exactly when one worker at most is configured, that is when
`start_server` has nothing to warn of. -/
theorem main_thread_alone_iff (serde : SerdeJson) (cfg : WorkersConfig) :
    ((∀ s, Reachable (Hosted.step serde cfg) (startServer serde false cfg).2 s → s.MainOnly) ↔
      cfg.count ≤ 1) ∧
    (cfg.count ≤ 1 ↔ (startServer serde false cfg).1 = none) := by
  constructor
  · constructor
    · intro h
      by_contra hcount
      obtain ⟨s, hs, hthread⟩ := second_thread_started serde (Nat.lt_of_not_le hcount)
      exact absurd ((h s hs).main 1 _ hthread) nofun
    · intro hcount s hs
      exact (lone_of_reachable hcount hs).mainOnly
  · simp [startServer]

/-- With two workers configured the second boot starts a PHP thread, warning or not. -/
theorem nts_starts_second_thread :
    (startServer .ofNull false .pair).1 =
        some "multi-worker requested but PHP is NTS; only 1 worker will be used" ∧
      ∃ s, Reachable (Hosted.step .ofNull .pair) (startServer .ofNull false .pair).2 s ∧
        s.threads 1 = some (.zts 2) ∧ ¬s.MainOnly := by
  have hcount : 1 < WorkersConfig.pair.count := by decide
  obtain ⟨s, hs, hthread⟩ := second_thread_started .ofNull hcount
  exact ⟨rfl, s, hs, hthread, fun h => absurd (h.main 1 _ hthread) nofun⟩

end FolkCore.Ext
