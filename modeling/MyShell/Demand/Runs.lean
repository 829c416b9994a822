import MyShell.Demand.Admission
import MyShell.Demand.Interpreter

/-! What `exec` does with its scripts, from the empty kernel to the end of the loop of `run_proc_RR`. -/
namespace MyShell.Demand
open RecencyList TextFile

section
variable {W : Type} {border : Nat} {shell : Shell W} {z : Sizes} {around : Surroundings W} {scripts : List Text}
  {k k₀ : Kernel W}

/-- The scripts can be run to their end: the kernel is empty, the lines are counted and leave the kernel alone,
and the first pages fit. -/
structure Executable (z : Sizes) (around : Surroundings W) (scripts : List Text) (k₀ : Kernel W) : Prop where
  empty : EmptyKernel z.frameStoreSize k₀
  counted : ∀ text ∈ scripts, Counted text
  harmless : ∀ text ∈ scripts, ∀ line ∈ keptLines text, Harmless around line
  fits : firstFrames scripts ≤ z.frameStoreSize/3

/-- The kernel in which `exec` has started the scripts. -/
abbrev StartedFrom (z : Sizes) (scripts : List Text) (k₀ k : Kernel W) : Prop :=
  scripts.foldlM (newProc z.frameStoreSize) {k₀ with history := []} = some k

/-- The progress of the scripts that `exec` has started. -/
abbrev ExecUnderway (z : Sizes) (around : Surroundings W) (scripts : List Text) (k₀ k : Kernel W) (s : Progress) : Prop :=
  Underway z.frameStoreSize (parseInput z around) (k₀.memory,k₀.world) (scriptOf scripts k₀.pidCounter)
    (Finset.Ico k₀.pidCounter (k₀.pidCounter + scripts.length)) k s

theorem Executable.underway (ready : Executable z around scripts k₀) (started : StartedFrom z scripts k₀ k) :
    ∃ s, ExecUnderway z around scripts k₀ k s ∧ Runnable z.frameStoreSize (parseInput z around)
      (scriptOf scripts k₀.pidCounter) (Finset.Ico k₀.pidCounter (k₀.pidCounter + scripts.length)) :=
  started_underway ready.empty ready.counted (fun text listed line member => (ready.harmless text listed line member).quiet)
    started

/-- What is true when all scripts have been run. -/
structure ScriptsRun (border : Nat) (shell : Shell W) (scripts : List Text) (k₀ k : Kernel W) : Prop where
  executed : ∀ p, (executions p k.history).reverse =
    firstLines (keptLines (scriptOf scripts k₀.pidCounter p)) (lines (scriptOf scripts k₀.pidCounter p)).length
  loaded : ∀ p, (loads p k.history).reverse = List.range (pagesOf (lines (scriptOf scripts k₀.pidCounter p)).length)
  effects : SameOutside border (k.memory,k.world) (replay shell (k₀.memory,k₀.world) k.history)

theorem Underway.allRun {start : Memory × W} {first : Nat} {s : Progress}
    (kept : Underway border shell start (scriptOf scripts first) (Finset.Ico first (first + scripts.length)) k s)
    (finished : ∀ p ∈ Finset.Ico first (first + scripts.length),
      s.done p = (Demand.scripts (scriptOf scripts first) p).length) (p : Nat) :
    s.done p = (lines (scriptOf scripts first p)).length ∧ s.loaded p = pagesOf (lines (scriptOf scripts first p)).length := by
  have length : (Demand.scripts (scriptOf scripts first) p).length = (lines (scriptOf scripts first p)).length := by
    rw [Demand.scripts,keptLines,List.length_map]
  have within := kept.recorded.within p
  have most := kept.recorded.most p
  rw [length] at within most
  by_cases member : p ∈ Finset.Ico first (first + scripts.length)
  · have all := finished p member
    have covered := (kept.steady.sound.loaded p member).covered
    rw [length] at all
    refine ⟨all,Nat.le_antisymm most ?_⟩
    rw [pagesOf_eq]
    omega
  · rw [scriptOf_none member] at within most ⊢
    exact ⟨Nat.le_zero.mp within,Nat.le_zero.mp most⟩

theorem Executable.finishes (ready : Executable z around scripts k₀) :
    ∃ k, StartedFrom z scripts k₀ k ∧ ∃ fuel k' s',
      (∀ more, fuel ≤ more → runTurns z.frameStoreSize (parseInput z around) more k = some k') ∧
        ExecUnderway z around scripts k₀ k' s' ∧
          ∀ p, s'.done p = (lines (scriptOf scripts k₀.pidCounter p)).length ∧
            s'.loaded p = pagesOf (lines (scriptOf scripts k₀.pidCounter p)).length := by
  obtain ⟨k,started⟩ := scripts_start ready.empty ready.counted ready.fits
  obtain ⟨s,kept,runnable⟩ := ready.underway started
  obtain ⟨fuel,k',s',ends,kept',finished⟩ := kept.run runnable
  exact ⟨k,started,fuel,k',s',ends,kept',kept'.allRun finished⟩

/-- The scripts are started and the loop ends. The commands have had their effects in an interleaving of the
scripts: each process has executed all lines of its script once and in order, each from the page it
is on, and has loaded its pages once and in order. -/
theorem scripts_run_interleaved (ready : Executable z around scripts k₀) :
    ∃ k, StartedFrom z scripts k₀ k ∧ ∃ fuel k',
      (∀ more, fuel ≤ more → runTurns z.frameStoreSize (parseInput z around) more k = some k') ∧
        ScriptsRun z.frameStoreSize (parseInput z around) scripts k₀ k' := by
  obtain ⟨k,started,fuel,k',s',ends,kept',done⟩ := ready.finishes
  refine ⟨k,started,fuel,k',ends,fun p => ?_,fun p => ?_,?_⟩
  · rw [kept'.follows.history,kept'.recorded.executed,List.reverse_reverse,(done p).1]
  · rw [kept'.follows.history,kept'.recorded.loaded,List.reverse_reverse,(done p).2]
  · rw [kept'.follows.history]
    exact kept'.follows.effects

/-- Three pages, the last one with one line. -/
def settingScript : Text := "set a 1\nset b 2\nprint a\necho one\nset a 3; print a\necho $b\nresetmem".toList

def printingScript : Text := "print a\nprint b".toList

def sampleScripts : List Text := [settingScript,printingScript]

/-- Three frames and ten variables. -/
def sampleSizes : Sizes := ⟨9,10⟩

def printed : Surroundings Text := ⟨fun text output => output ++ text,fun _ output => (0,output)⟩

theorem sampleScripts_executable : Executable sampleSizes printed sampleScripts (kernelSetup []) where
  empty := kernelSetup_empty _ _
  counted := by decide
  harmless := by
    have plain : ∀ text ∈ sampleScripts, ∀ line ∈ keptLines text, onVariables line = true := by decide
    exact fun text listed line member => harmless_of_onVariables (plain text listed line member)
  fits := by decide

theorem scripts_run_interleaved_sample : ∃ k, StartedFrom sampleSizes sampleScripts (kernelSetup []) k ∧ ∃ fuel k',
    (∀ more, fuel ≤ more → runTurns 9 (parseInput sampleSizes printed) more k = some k') ∧
      ScriptsRun 9 (parseInput sampleSizes printed) sampleScripts (kernelSetup []) k' :=
  scripts_run_interleaved sampleScripts_executable

/-- The shell goes on, and does not end for want of frames, if and only if the first pages of the scripts fit. -/
theorem scripts_start_iff (empty : EmptyKernel border k₀) (counted : ∀ text ∈ scripts, Counted text) :
    (∃ k, scripts.foldlM (newProc border) {k₀ with history := []} = some k) ↔ firstFrames scripts ≤ border/3 := by
  refine ⟨?_,scripts_start empty counted⟩
  rintro ⟨k,started⟩
  have nobody : Finset.Ico k₀.pidCounter (k₀.pidCounter + ([] : List Text).length) = ∅ := Finset.Ico_self _
  obtain ⟨s,_,begun⟩ := (newProcs_started (fun _ m world => (0,m,world)) scripts k₀.pidCounter counted [] scripts rfl
    {k₀ with history := []} k idle (nobody ▸ empty.holds) (nobody ▸ idle_started _ _) rfl).1 started
  have room := begun.sound.room
  rw [begun.counted] at room
  have shares : ∀ p, share (Demand.scripts (scriptOf scripts k₀.pidCounter)) p =
      min 2 (pagesOf (lines (scriptOf scripts k₀.pidCounter p)).length) := by
    intro p
    rw [share,Demand.scripts,keptLines,List.length_map]
  rw [Finset.sum_congr rfl fun p _ => shares p] at room
  rw [firstFrames,← sum_scripts (fun text => min 2 (pagesOf (lines text).length)) scripts k₀.pidCounter]
  exact room

theorem scripts_start_iff_sample : (∃ k, sampleScripts.foldlM (newProc 9) {kernelSetup () with history := []} = some k) ↔
    firstFrames sampleScripts ≤ 3 :=
  scripts_start_iff (kernelSetup_empty _ _) (by decide)

/-- The pages in `LRU_CACHE` are those in the frames, which are the first ones; the newest use is first. -/
structure FramesOwned (border : Nat) (k : Kernel W) : Prop where
  once : k.lruCache.Nodup
  within : 3*k.lruCache.length ≤ border
  place : ∀ page ∈ k.lruCache, ∃ frame < k.lruCache.length, (k.entry page).index = fun j => 3*frame + j
  apart : ∀ x ∈ k.lruCache, ∀ y ∈ k.lruCache, (k.entry x).index 0 = (k.entry y).index 0 → x = y
  owner : ∀ page ∈ k.lruCache, ∀ j < 3, (k.memory ((k.entry page).index j)).var = pidText page.1
  free : ∀ i < border, 3*k.lruCache.length ≤ i → (k.memory i).var = noneText
  valid : ∀ page, page.1 ∈ k.allPcb → page ∉ k.lruCache → ∀ j < 3, (k.entry page).validBit j = false
  recent : k.lruCache.Pairwise fun x y => x ∈ above y (uses k.history)

theorem Underway.framesOwned {start : Memory × W} {texts : Nat → Text} {pids : Finset Nat} {s : Progress}
    (kept : Underway border shell start texts pids k s) : FramesOwned border k := by
  obtain ⟨follows,steady,recorded,_⟩ := kept
  have length : s.resident.length ≤ border/3 := steady.sound.room
  constructor
  · rw [follows.lru]
    exact steady.sound.distinct
  · rw [follows.lru]
    omega
  · rw [follows.lru]
    intro page inside
    obtain ⟨frame,ours,framed⟩ := follows.framed page inside
    exact ⟨frame,Finset.mem_range.mp ours,framed.index⟩
  · rw [follows.lru]
    exact follows.apart
  · rw [follows.lru]
    intro page inside j less
    obtain ⟨frame,_,framed⟩ := follows.framed page inside
    rw [framed.index]
    exact framed.owner j less
  · rw [follows.lru]
    refine fun i below behind => follows.free i below fun used => ?_
    have less := Finset.mem_range.mp used
    omega
  · rw [follows.lru]
    intro page known absent j less
    exact (follows.runs page.1 ((follows.known page.1).mp known)).missing page.2 absent j less
  · rw [follows.lru,follows.history]
    exact recorded.recent

end
end MyShell.Demand
