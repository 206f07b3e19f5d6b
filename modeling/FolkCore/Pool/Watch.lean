import FolkCore.Data.Path
import FolkCore.Plugins.Registry
import FolkCore.Pool.Generations

/-!
# The file watcher

`watch::spawn` starts a debouncer on the directories of the configuration. Its callback
starts a task for every batch of events with a watched file, and the task calls
`trigger_reload`. The callback and the tasks hold the pool, so a reload that was asked for
is made before the pool goes; the number of reloads and of tasks is the number of such
batches, and a worker that was there when a file changed starts at most one request after
the last task.
-/

namespace FolkCore.Pool

open Lib

/-- `DevConfig`, with the debounce window in milliseconds. -/
structure DevConfig where
  watch : Bool
  watchPaths : List String
  watchExtensions : List String
  debounce : Nat
  deriving DecidableEq, Repr

/-- `DevConfig::default`. -/
def DevConfig.default : DevConfig :=
  { watch := false, watchPaths := ["app", "src", "routes", "config"]
    watchExtensions := ["php"], debounce := 300 }

namespace Watch

/-- `trim_start_matches('.')` and `to_ascii_lowercase`. -/
def normalizeExtension (e : String) : String :=
  (String.ofList (e.toList.dropWhile (· = '.'))).toLower

/-- Whether the path's extension is in the watched set. -/
def matchesExtension (path : Bytes) (extensions : List String) : Bool :=
  match (Path.extension path).bind fromUtf8? with
  | some ext => decide (ext.toLower ∈ extensions)
  | none => false

/-- What `spawn` asks of the debouncer and of the file system. -/
structure Notify where
  newDebouncer : Nat → Except String Unit
  pathExists : String → Bool
  watch : String → Except String Unit

/-- The paths that are watched. One that does not exist is skipped, and one that cannot be
watched is an error. -/
def watchAll (notify : Notify) : List String → Except Plugins.AnyError (List String)
  | [] => .ok []
  | path :: rest =>
      if notify.pathExists path then
        match notify.watch path with
        | .ok () => (watchAll notify rest).map (path :: ·)
        | .error e => .error ((Plugins.AnyError.mk [e]).withContext ("failed to watch " ++ path))
      else watchAll notify rest

/-- `watch::spawn`: the extensions of the callback and the watched paths. -/
def spawn (notify : Notify) (dev : DevConfig) :
    Except Plugins.AnyError (List String × List String) :=
  match notify.newDebouncer dev.debounce with
  | .ok () => (watchAll notify dev.watchPaths).map fun paths =>
      (dev.watchExtensions.map normalizeExtension, paths)
  | .error e => .error ((Plugins.AnyError.mk [e]).withContext "failed to create file watcher")

section Extensions

variable {path ext : Bytes} {extensions : List String} {text : String}

theorem eq_dot_of_toLower {c : Char} (h : c.toLower = '.') : c = '.' := by
  unfold Char.toLower at h
  split at h
  · next hupper =>
      -- an upper-case letter becomes a letter
      have hval := congrArg (fun c => c.val.toNat) h
      have hlow : 65 ≤ c.val.toNat := hupper.1
      have hhigh : c.val.toNat ≤ 90 := hupper.2
      have hsum : (c.val.toNat + 32) % 4294967296 = 46 := hval
      omega
  · exact h

theorem toList_toLower (text : String) : text.toLower.toList = text.toList.map Char.toLower :=
  String.toList_map

theorem dot_notMem_toLower (h : '.' ∉ text.toList) : '.' ∉ text.toLower.toList := by
  rw [toList_toLower, List.mem_map]
  rintro ⟨c, hc, hlower⟩
  exact h (eq_dot_of_toLower hlower ▸ hc)

/-- The byte of a dot is in the text of a dot. -/
theorem dot_notMem_of_fromUtf8? (h : fromUtf8? ext = some text) (hdot : dot ∉ ext) :
    '.' ∉ text.toList := by
  have hbytes := fromUtf8?_eq_some_iff.mp h
  intro hmem
  apply hdot
  rw [← hbytes, asBytes, ← String.utf8Encode_toList, List.utf8Encode,
    List.toList_data_toByteArray]
  exact List.mem_flatMap.mpr ⟨'.', hmem, by decide⟩

theorem matchesExtension_eq (hext : Path.extension path = some ext)
    (htext : fromUtf8? ext = some text) :
    matchesExtension path extensions = decide (text.toLower ∈ extensions) := by
  simp [matchesExtension, hext, htext]

/-- The extension of a path, when it is a text, has no dot. -/
theorem matchesExtension_cases (path : Bytes) :
    (∀ extensions, matchesExtension path extensions = false) ∨
      ∃ e, '.' ∉ e.toList ∧
        ∀ extensions, matchesExtension path extensions = decide (e ∈ extensions) := by
  cases htext : (Path.extension path).bind fromUtf8? with
  | none => exact .inl fun extensions => by simp [matchesExtension, htext]
  | some text =>
      obtain ⟨ext, hext, hdecode⟩ := Option.bind_eq_some_iff.mp htext
      have hdot := dot_notMem_of_fromUtf8? hdecode (Path.dot_notMem_extension hext)
      exact .inr ⟨text.toLower, dot_notMem_toLower hdot,
        fun extensions => matchesExtension_eq hext hdecode⟩

theorem spawn_extensions {notify : Notify} {dev : DevConfig} {r : List String × List String}
    (h : spawn notify dev = .ok r) : r.1 = dev.watchExtensions.map normalizeExtension := by
  unfold spawn at h
  split at h
  · cases hwatch : watchAll notify dev.watchPaths with
    | error e => simp [hwatch, Except.map] at h
    | ok paths =>
        rw [hwatch] at h
        cases h
        rfl
  · cases h

/-- Whatever the watcher is started with: an entry of `watch_extensions` with a dot behind
its leading ones watches nothing, and every other one watches the files with its
extension in any directory, in upper or lower case (`..` is not a file). -/
theorem watched_extensions (notify : Notify) (dev : DevConfig)
    (extensions paths : List String) (h : spawn notify dev = .ok (extensions, paths)) :
    (∀ path, matchesExtension path extensions =
      matchesExtension path (extensions.filter fun e => decide ('.' ∉ e.toList))) ∧
    ∀ e ∈ dev.watchExtensions, ∀ dir stem ext text,
      stem ≠ [] → slash ∉ stem → slash ∉ ext → dot ∉ ext → stem ++ dot :: ext ≠ [dot, dot] →
      fromUtf8? ext = some text → text.toLower = normalizeExtension e →
        matchesExtension (dir ++ slash :: (stem ++ dot :: ext)) extensions = true := by
  constructor
  · intro path
    rcases matchesExtension_cases path with hnone | ⟨e, hdot, heq⟩
    · rw [hnone, hnone]
    · simp [heq, hdot]
  · intro e he dir stem ext text hstem hslash hslash' hdot hdots htext hlower
    rw [matchesExtension_eq (Path.extension_append hstem hslash hslash' hdot hdots) htext,
      hlower, show extensions = _ from spawn_extensions h]
    exact decide_eq_true (List.mem_map_of_mem he)

/-- With the extensions `.PHP` and `blade.php`, the template `v/a.blade.php` is watched by
the first one alone. -/
theorem template_watched :
    ∃ extensions,
      spawn ⟨fun _ => .ok (), fun _ => false, fun _ => .ok ()⟩
        ⟨true, ["v"], [".PHP", "blade.php"], 300⟩ = .ok (extensions, []) ∧
      matchesExtension ([118] ++ slash :: ([97, 46, 98, 108, 97, 100, 101] ++
        dot :: [112, 104, 112])) extensions = true ∧
      extensions.filter (fun e => decide ('.' ∉ e.toList)) = ["php"] := by
  have hphp : normalizeExtension ".PHP" = "php" := by
    simp [normalizeExtension, ← String.toList_inj, toList_toLower]
  have hblade : normalizeExtension "blade.php" = "blade.php" := by
    simp [normalizeExtension, ← String.toList_inj, toList_toLower]
  have hlower : "php".toLower = normalizeExtension ".PHP" := by
    simp [hphp, ← String.toList_inj, toList_toLower]
  have hspawn : spawn ⟨fun _ => .ok (), fun _ => false, fun _ => .ok ()⟩
      ⟨true, ["v"], [".PHP", "blade.php"], 300⟩ = .ok (["php", "blade.php"], []) := by
    simp [spawn, watchAll, Except.map, hphp, hblade]
  have htext : fromUtf8? [112, 104, 112] = some "php" :=
    fromUtf8?_eq_some_iff.mpr (by decide +kernel)
  refine ⟨["php", "blade.php"], hspawn, ?_, by simp⟩
  exact (watched_extensions _ _ _ _ hspawn).2 ".PHP" (by simp) [118]
    [97, 46, 98, 108, 97, 100, 101] [112, 104, 112] "php" (by decide) (by decide) (by decide)
    (by decide) (by decide) htext hlower

end Extensions

end Watch

/-- The pool with its watcher: the callback, the tasks that it started and that have not
reloaded yet, and the batches of events it was called with. -/
structure Watching (R : Runtime) where
  pool : State R
  extensions : List String
  callback : Bool
  pending : Nat
  batches : List (List Bytes)

/-- The debouncer calls the callback, a task calls `trigger_reload`, the debouncer's thread
ends, or something happens in the pool. -/
inductive WatchAction (R : Runtime) where
  | batch (result : Except String (List Bytes))
  | reloaded (result : Except String Unit)
  | stop
  | pool (a : Action R)

namespace Watching

variable {R : Runtime} {serde : SerdeJson} {cfg : WorkersConfig} {w w' : Watching R}

/-- Whether the callback starts a task for these events. -/
def changed (w : Watching R) (paths : List Bytes) : Bool :=
  paths.any fun path => Watch.matchesExtension path w.extensions

theorem changed_eq (h : w'.extensions = w.extensions) : w'.changed = w.changed := by
  funext paths
  rw [changed, changed, h]

/-- The server's guard: the extensions of a watcher that was started. -/
def guard (notify : Watch.Notify) (dev : DevConfig) : Option (List String) :=
  if dev.watch then (Watch.spawn notify dev).toOption.map Prod.fst else none

def init (R : Runtime) (cfg : WorkersConfig) (guard : Option (List String)) : Watching R :=
  { pool := Pool.init R cfg, extensions := guard.getD [], callback := guard.isSome
    pending := 0, batches := [] }

/-- `trigger_reload` goes on when the caches could not be invalidated. The pool is dropped
by its last owner, and the callback and every task are owners. -/
def step (serde : SerdeJson) (cfg : WorkersConfig) (w : Watching R) :
    WatchAction R → Option (Watching R)
  | .batch (.ok paths) =>
      if w.callback then some { w with
        pending := if w.changed paths then w.pending + 1 else w.pending
        batches := w.batches ++ [paths] }
      else none
  | .batch (.error _) => if w.callback then some w else none
  | .reloaded _ =>
      if w.pending = 0 then none
      else (Pool.step serde cfg w.pool .reload).map fun pool =>
        { w with pool, pending := w.pending - 1 }
  | .stop => if w.callback then some { w with callback := false } else none
  | .pool .reload => none
  | .pool .dropPool =>
      if w.callback ∨ w.pending ≠ 0 then none
      else (Pool.step serde cfg w.pool .dropPool).map fun pool => { w with pool }
  | .pool a => (Pool.step serde cfg w.pool a).map fun pool => { w with pool }

/-- What one step does to the pool, the tasks and the batches. -/
inductive Change (serde : SerdeJson) (cfg : WorkersConfig) (w : Watching R) :
    Watching R → Prop
  | called {paths : List Bytes} (hcallback : w.callback = true) :
      Change serde cfg w { w with
        pending := if w.changed paths then w.pending + 1 else w.pending
        batches := w.batches ++ [paths] }
  | failed : Change serde cfg w w
  | reloaded {pool : State R} (hpending : w.pending ≠ 0)
      (move : Move serde cfg w.pool .reload pool) :
      Change serde cfg w { w with pool, pending := w.pending - 1 }
  | stopped : Change serde cfg w { w with callback := false }
  | moved {a : Action R} {pool : State R} (hreload : a ≠ .reload)
      (hdrop : a = .dropPool → w.callback = false ∧ w.pending = 0)
      (move : Move serde cfg w.pool a pool) : Change serde cfg w { w with pool }

theorem step_change {a : WatchAction R} (h : step serde cfg w a = some w') :
    Change serde cfg w w' := by
  unfold step at h
  split at h
  · next paths =>
      split at h
      · next hcallback =>
          cases h
          exact .called hcallback
      · cases h
  · split at h
    · cases h
      exact .failed
    · cases h
  · split at h
    · cases h
    · next hpending =>
        obtain ⟨pool, hpool, rfl⟩ := Option.map_eq_some_iff.mp h
        exact .reloaded hpending (step_move hpool)
  · split at h
    · cases h
      exact .stopped
    · cases h
  · cases h
  · split at h
    · cases h
    · next howners =>
        obtain ⟨pool, hpool, rfl⟩ := Option.map_eq_some_iff.mp h
        refine .moved (by simp) (fun _ => ?_) (step_move hpool)
        simpa using howners
  · next a hreload hdrop =>
      obtain ⟨pool, hpool, rfl⟩ := Option.map_eq_some_iff.mp h
      exact .moved hreload (fun heq => absurd heq hdrop) (step_move hpool)

/-- Every change that was seen is a reload or a task that will make one. -/
structure Sound (w : Watching R) : Prop where
  counted : w.pool.generation + w.pending = w.batches.countP w.changed
  owned : w.callback = true ∨ w.pending ≠ 0 → w.pool.poolOpen = true

theorem Sound.init (R : Runtime) (cfg : WorkersConfig) (guard : Option (List String)) :
    Sound (init R cfg guard) where
  counted := rfl
  owned := fun _ => rfl

theorem generation_eq {s t : State R} {a : Action R} (move : Move serde cfg s a t)
    (ha : a ≠ .reload) : t.generation = s.generation := by
  cases move with
  | reloaded => exact absurd rfl ha
  | supervised => simp
  | _ => rfl

theorem poolOpen_eq {s t : State R} {a : Action R} (move : Move serde cfg s a t)
    (ha : a ≠ .dropPool) : t.poolOpen = s.poolOpen := by
  cases move with
  | poolDropped => exact absurd rfl ha
  | supervised => simp
  | _ => rfl

theorem Change.extensions (change : Change serde cfg w w') : w'.extensions = w.extensions := by
  cases change <;> rfl

theorem Sound.step (h : Sound w) (change : Change serde cfg w w') : Sound w' := by
  obtain ⟨hcounted, howned⟩ := h
  cases change with
  | @called paths hcallback =>
      refine ⟨?_, fun _ => howned (.inl hcallback)⟩
      change w.pool.generation + (if w.changed paths then w.pending + 1 else w.pending) =
        (w.batches ++ [paths]).countP w.changed
      rw [List.countP_append, ← hcounted]
      cases hpaths : w.changed paths <;> simp [hpaths, Nat.add_assoc]
  | failed => exact ⟨hcounted, howned⟩
  | @reloaded pool hpending move =>
      have hopen := howned (.inr hpending)
      refine ⟨?_, fun _ => (poolOpen_eq move (by simp)).trans hopen⟩
      change pool.generation + (w.pending - 1) = w.batches.countP w.changed
      cases move
      rw [← hcounted]
      change w.pool.generation + 1 + (w.pending - 1) = w.pool.generation + w.pending
      omega
  | stopped => exact ⟨hcounted, fun hleft => howned (.inr (by simpa using hleft))⟩
  | @moved a pool hreload hdrop move =>
      refine ⟨(congrArg (· + w.pending) (generation_eq move hreload)).trans hcounted,
        fun howners => ?_⟩
      have hkept : a ≠ .dropPool := by
        rintro rfl
        obtain ⟨hcallback, hpending⟩ := hdrop rfl
        exact howners.elim (by simp [hcallback]) (absurd hpending)
      exact (poolOpen_eq move hkept).trans (howned howners)

/-- What a step does to the pool. -/
theorem Change.pool (change : Change serde cfg w w') :
    w'.pool = w.pool ∨ ∃ a, Move serde cfg w.pool a w'.pool := by
  cases change with
  | reloaded _ move => exact .inr ⟨_, move⟩
  | moved _ _ move => exact .inr ⟨_, move⟩
  | called => exact .inl rfl
  | failed => exact .inl rfl
  | stopped => exact .inl rfl

/-- The batches are only added to, and the extensions stay. -/
def Since (w w' : Watching R) : Prop :=
  w'.extensions = w.extensions ∧ w.batches <+: w'.batches

theorem Since.step {u : Watching R} (h : Since w u) (change : Change serde cfg u w') :
    Since w w' := by
  refine ⟨change.extensions.trans h.1, ?_⟩
  cases change with
  | called => exact h.2.trans (List.prefix_append _ _)
  | failed => exact h.2
  | reloaded => exact h.2
  | stopped => exact h.2
  | moved => exact h.2

theorem Since.countP_le (h : Since w w') :
    w.batches.countP w.changed ≤ w'.batches.countP w'.changed := by
  rw [changed_eq h.1]
  exact h.2.sublist.countP_le

/-- Handle `h` was booted by slot `i` at generation `b`, if the slot still has it. -/
structure BootedAt (i h b : Nat) (s : State R) : Prop where
  drawn : h < s.handles
  booted : (s.slots i).handle = some h → (s.slots i).bootGeneration = b

variable {i h b n : Nat}

theorem BootedAt.step {s t : State R} {a : Action R} (hbooted : BootedAt i h b s)
    (hhoused : Housed s) (move : Move serde cfg s a t) : BootedAt i h b t := by
  have hpost := step_post hhoused move i
  have hslot : (t.post i).slot.handle = some h → (t.post i).slot.bootGeneration = b := by
    generalize t.post i = p at hpost ⊢
    cases hpost with
    | same => exact hbooted.booted
    | delivered => exact hbooted.booted
    | acted => exact hbooted.booted
    | supervised _ _ htidy move =>
        intro hhandle
        obtain ⟨hold, hsame⟩ := move.keeps_handle htidy (Nat.ne_of_lt hbooted.drawn) hhandle
        exact hsame.trans (hbooted.booted hold)
  exact ⟨Nat.lt_of_lt_of_le hbooted.drawn (handles_le move), hslot⟩

/-- A property of the pool that its moves keep while slot `i` has recyclable workers. -/
theorem watched_invariant (inv : State R → Prop)
    (hinv : ∀ s a t, Watched i s → inv s → Move serde cfg s a t → inv t) {u : Watching R}
    (hwatched : Watched i w.pool) (hw : inv w.pool)
    (hu : ReachableVia (step serde cfg) (fun w _ => recyclableSlot i w.pool = true) w u) :
    Watched i u.pool ∧ inv u.pool := by
  refine hu.invariant (fun u => Watched i u.pool ∧ inv u.pool) ⟨hwatched, hw⟩ ?_
  intro u _ v hboth hrecyclable hstep
  rcases (step_change hstep).pool with heq | ⟨a, move⟩
  · exact heq ▸ hboth
  · exact ⟨hboth.1.step hrecyclable move, hinv _ _ _ hboth.1 hboth.2 move⟩

/-- A notifier with the directory `src` only. -/
def srcOnly : Watch.Notify where
  newDebouncer _ := .ok ()
  pathExists path := decide (path = "src")
  watch _ := .ok ()

/-- `src/a.PHP`. -/
def savedFile : Bytes := [115, 114, 99] ++ slash :: ([97] ++ dot :: [80, 72, 80])

theorem changed_savedFile (w : Watching R) (hphp : w.extensions = ["php"]) :
    w.changed [savedFile] = true := by
  have htext : fromUtf8? [80, 72, 80] = some "PHP" :=
    fromUtf8?_eq_some_iff.mpr (by decide +kernel)
  have hext : Path.extension savedFile = some [80, 72, 80] := by decide +kernel
  have hlower : "PHP".toLower = "php" := by decide +kernel
  simp [changed, Watch.matchesExtension_eq hext htext, hlower, hphp]

end Watching

end FolkCore.Pool
