import Mathlib.Data.List.Basic
import Mathlib.Data.List.Range

/-!
# The plugin registry

Plugins boot in the order of their registration and shut down in the reverse
order. A boot or a shutdown is a call on a shared world, so what one plugin
answers may depend on every call made before it. Next to the world the calls are
recorded with their results.
-/

namespace FolkCore.Plugins

/-- The texts of an error's chain, the outermost context first. -/
structure AnyError where
  chain : List String
deriving DecidableEq, Repr

def AnyError.withContext (context : String) (e : AnyError) : AnyError :=
  ⟨context :: e.chain⟩

/-- What `boot` and `shutdown` of a plugin answer. -/
abbrev Outcome := Except AnyError Unit

variable {W Ctx : Type*}

structure Plugin (W Ctx : Type*) where
  name : String
  boot : Ctx → W → Outcome × W
  shutdown : W → Outcome × W

/-- The calls of a registry on its plugins, which are named by their positions. -/
inductive Call where
  | boot (i : Nat) (result : Outcome)
  | shutdown (i : Nat) (result : Outcome)

/-- A world and the calls that led to it. -/
structure Calls (W : Type*) where
  world : W
  made : List Call

def Plugin.callBoot (plugin : Plugin W Ctx) (i : Nat) (ctx : Ctx) (s : Calls W) :
    Outcome × Calls W :=
  let (result, world) := plugin.boot ctx s.world
  (result, ⟨world, s.made ++ [.boot i result]⟩)

def Plugin.callShutdown (plugin : Plugin W Ctx) (i : Nat) (s : Calls W) :
    Outcome × Calls W :=
  let (result, world) := plugin.shutdown s.world
  (result, ⟨world, s.made ++ [.shutdown i result]⟩)

theorem Plugin.callBoot_made (plugin : Plugin W Ctx) (i : Nat) (ctx : Ctx) (s : Calls W) :
    (plugin.callBoot i ctx s).2.made =
      s.made ++ [.boot i (plugin.callBoot i ctx s).1] := rfl

theorem Plugin.callShutdown_made (plugin : Plugin W Ctx) (i : Nat) (s : Calls W) :
    (plugin.callShutdown i s).2.made =
      s.made ++ [.shutdown i (plugin.callShutdown i s).1] := rfl

structure PluginRegistry (W Ctx : Type*) where
  plugins : List (Plugin W Ctx)

namespace PluginRegistry

def new : PluginRegistry W Ctx := ⟨[]⟩

def register (reg : PluginRegistry W Ctx) (plugin : Plugin W Ctx) : PluginRegistry W Ctx :=
  ⟨reg.plugins ++ [plugin]⟩

def names (reg : PluginRegistry W Ctx) : List String :=
  reg.plugins.map (·.name)

/-- The shutdown loop over plugins with their positions. An error is only logged, so
the loop goes on to the next plugin whatever the answer is. -/
def shutdownLoop : List (Plugin W Ctx × Nat) → Calls W → Calls W
  | [], s => s
  | (plugin, i) :: rest, s => shutdownLoop rest (plugin.callShutdown i s).2

/-- `self.plugins.iter().take(count).rev()`. -/
def shutdownPartial (reg : PluginRegistry W Ctx) (count : Nat) (s : Calls W) : Calls W :=
  shutdownLoop (reg.plugins.zipIdx.take count).reverse s

def shutdownAll (reg : PluginRegistry W Ctx) (s : Calls W) : Calls W :=
  reg.shutdownPartial reg.plugins.length s

/-- The boot loop. `bootedCount` is the position of the plugin that boots, which is
also the number of plugins booted before it. -/
def bootLoop (reg : PluginRegistry W Ctx) (ctx : Ctx) :
    List (Plugin W Ctx × Nat) → Calls W → Outcome × Calls W
  | [], s => (.ok (), s)
  | (plugin, bootedCount) :: rest, s =>
      match plugin.callBoot bootedCount ctx s with
      | (.error e, s) =>
          (.error (e.withContext ("plugin '" ++ plugin.name ++ "' boot failed")),
            reg.shutdownPartial bootedCount s)
      | (.ok (), s) => reg.bootLoop ctx rest s

def bootAll (reg : PluginRegistry W Ctx) (ctx : Ctx) (s : Calls W) : Outcome × Calls W :=
  reg.bootLoop ctx reg.plugins.zipIdx s

section Shutdown

variable (reg : PluginRegistry W Ctx)

/-- Each of the first `count` plugins shut down once, the last one first. -/
def shutDown (count : Nat) (results : Nat → Outcome) : List Call :=
  (List.range count).reverse.map fun i => .shutdown i (results i)

theorem shutDown_succ (count : Nat) (results : Nat → Outcome) :
    shutDown (count + 1) results =
      .shutdown count (results count) :: shutDown count results := by
  simp [shutDown, List.range_succ]

theorem shutDown_congr {count : Nat} {results others : Nat → Outcome}
    (h : ∀ i < count, results i = others i) : shutDown count results = shutDown count others := by
  apply List.map_congr_left
  intro i hi
  rw [h i (by simpa using hi)]

theorem shutdownPartial_zero (s : Calls W) : reg.shutdownPartial 0 s = s := rfl

/-- The plugin that booted last is shut down first. -/
theorem shutdownPartial_succ {count : Nat} {plugin : Plugin W Ctx}
    (hplugin : reg.plugins[count]? = some plugin) (s : Calls W) :
    reg.shutdownPartial (count + 1) s =
      reg.shutdownPartial count (plugin.callShutdown count s).2 := by
  have hlast : (reg.plugins.zipIdx.take (count + 1)).reverse =
      (plugin, count) :: (reg.plugins.zipIdx.take count).reverse := by
    simp [List.take_add_one, List.getElem?_zipIdx, hplugin]
  rw [shutdownPartial, hlast]
  rfl

/-- Whatever the shutdowns answer, each of the first `count` plugins is called once. -/
theorem shutdownPartial_made {count : Nat} (hcount : count ≤ reg.plugins.length)
    (s : Calls W) :
    ∃ results, (reg.shutdownPartial count s).made = s.made ++ shutDown count results := by
  induction count generalizing s with
  | zero => exact ⟨fun _ => .ok (), by simp [shutdownPartial_zero, shutDown]⟩
  | succ count ih =>
      have hplugin := List.getElem?_eq_getElem (l := reg.plugins) (i := count) (by omega)
      rw [reg.shutdownPartial_succ hplugin]
      generalize reg.plugins[count] = plugin at hplugin
      obtain ⟨results, hmade⟩ := ih (by omega) (plugin.callShutdown count s).2
      let answer := (plugin.callShutdown count s).1
      refine ⟨fun i => if i = count then answer else results i, ?_⟩
      have hrest : shutDown count results =
          shutDown count fun i => if i = count then answer else results i := by
        apply shutDown_congr
        intro i hi
        simp [Nat.ne_of_lt hi]
      rw [hmade, plugin.callShutdown_made, shutDown_succ, ← hrest]
      simp [answer]

end Shutdown

section Boot

variable (reg : PluginRegistry W Ctx)

/-- The first `count` plugins booted in order, all with success. -/
def booted (count : Nat) : List Call :=
  (List.range count).map fun i => .boot i (.ok ())

theorem booted_succ (count : Nat) :
    booted (count + 1) = booted count ++ [.boot count (.ok ())] := by
  simp [booted, List.range_succ]

/-- Every plugin booted, and none was shut down. -/
def BootedAll (before : List Call) (final : Outcome × Calls W) : Prop :=
  final.1 = .ok () ∧ final.2.made = before ++ booted reg.plugins.length

/-- The boot of plugin `k` failed, the ones booted before it were shut down, and the
error is that of plugin `k`. -/
def RolledBack (k : Nat) (before : List Call) (final : Outcome × Calls W) : Prop :=
  ∃ plugin e results, reg.plugins[k]? = some plugin ∧
    final.1 = .error (e.withContext ("plugin '" ++ plugin.name ++ "' boot failed")) ∧
    final.2.made = before ++ booted k ++ .boot k (.error e) :: shutDown k results

/-- The loop at plugin `k` with all plugins before it booted. The induction is on the
plugins that are left. -/
theorem bootLoop_outcome (ctx : Ctx) (before : List Call) {k : Nat} {s : Calls W}
    {rest : List (Plugin W Ctx × Nat)} (hrest : reg.plugins.zipIdx.drop k = rest)
    (hk : k ≤ reg.plugins.length) (hmade : s.made = before ++ booted k) :
    reg.BootedAll before (reg.bootLoop ctx rest s) ∨
      ∃ j, reg.RolledBack j before (reg.bootLoop ctx rest s) := by
  induction rest generalizing k s with
  | nil =>
      have hall : k = reg.plugins.length := by
        have := List.drop_eq_nil_iff.mp hrest
        simp only [List.length_zipIdx] at this
        omega
      exact .inl ⟨rfl, by rw [bootLoop, hmade, hall]⟩
  | cons item rest ih =>
      have hlt : k < reg.plugins.zipIdx.length := by
        by_contra hge
        rw [List.drop_of_length_le (by omega)] at hrest
        cases hrest
      have hitem : (reg.plugins.zipIdx)[k] :: reg.plugins.zipIdx.drop (k + 1) = item :: rest := by
        rw [← hrest, List.drop_eq_getElem_cons hlt]
      rw [List.length_zipIdx] at hlt
      obtain ⟨rfl, hnext⟩ := List.cons.inj hitem
      have hplugin := List.getElem?_eq_getElem hlt
      simp only [List.getElem_zipIdx, Nat.zero_add]
      generalize reg.plugins[k] = plugin at hplugin
      have hcall := plugin.callBoot_made k ctx s
      rw [bootLoop]
      -- the answer of the boot decides between the rollback and the next plugin
      rcases hanswer : plugin.callBoot k ctx s with ⟨answer, t⟩
      rw [hanswer, hmade] at hcall
      cases answer with
      | error e =>
          obtain ⟨results, hdown⟩ := reg.shutdownPartial_made hk t
          refine .inr ⟨k, plugin, e, results, hplugin, rfl, ?_⟩
          rw [hdown, hcall]
          simp
      | ok _ =>
          apply ih hnext hlt
          rw [hcall, booted_succ]
          simp

/-- The test's two plugins, the second of which now fails its boot while the first one
fails its shutdown. -/
example :
    let reg : PluginRegistry Unit Unit := (new.register
      ⟨"a", fun _ w => (.ok (), w), fun w => (.error ⟨["a"]⟩, w)⟩).register
      ⟨"b", fun _ w => (.error ⟨["b"]⟩, w), fun w => (.ok (), w)⟩
    reg.bootAll () ⟨(), []⟩ =
      (.error ⟨["plugin 'b' boot failed", "b"]⟩,
        ⟨(), [.boot 0 (.ok ()), .boot 1 (.error ⟨["b"]⟩), .shutdown 0 (.error ⟨["a"]⟩)]⟩) :=
  rfl

end Boot

end PluginRegistry

end FolkCore.Plugins
