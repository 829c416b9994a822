import Mathlib.Algebra.BigOperators.Intervals
import MyShell.Demand.Runs

/-! What `run_proc_RR` frees behind its loop: `free_PCB` takes each slot of a page for the start of a frame, so
that it clears two slots more than the frames have. -/
namespace MyShell.Demand
open TextFile

theorem clearFrame_slot (m : Memory) (start n : Nat) :
    clearFrame m start n = if start ≤ n ∧ n < start + 3 then freeSlot else m n := by
  have slots : clearFrame m start = memFreeAt (memFreeAt (memFreeAt m start) (start+1)) (start+2) := rfl
  rw [slots]
  unfold memFreeAt
  simp only [Function.update_apply]
  by_cases inside : start ≤ n ∧ n < start + 3
  · rw [if_pos inside]
    split
    · rfl
    · split
      · rfl
      · rw [if_pos (by omega)]
  · rw [if_neg inside,if_neg (by omega),if_neg (by omega),if_neg (by omega)]

theorem clearFrames_slot (starts : List Nat) (m : Memory) (n : Nat) :
    starts.foldl clearFrame m n = if ∃ start ∈ starts, start ≤ n ∧ n < start + 3 then freeSlot else m n := by
  induction starts generalizing m with
  | nil => rw [List.foldl_nil,if_neg fun some => some.elim fun _ both => List.not_mem_nil both.1]
  | cons first starts ih =>
    rw [List.foldl_cons,ih,clearFrame_slot]
    simp only [List.mem_cons,exists_eq_or_imp]
    by_cases here : first ≤ n ∧ n < first + 3
    · rw [if_pos here,if_pos (Or.inl here),ite_self]
    · rw [if_neg here]
      simp only [here,false_or]

/-- The slots that `free_PCB` takes for the starts of frames. -/
def freedStarts (pcb : PCB) : List Nat :=
  (List.range pcb.pageTableSize).flatMap fun i => (List.range pageLines).map fun j => (pcb.pageTable i).index j

theorem freePCB_eq (m : Memory) (pcb : PCB) : freePCB m pcb = (freedStarts pcb).foldl clearFrame m := by
  unfold freePCB freedStarts
  rw [List.foldl_flatMap]
  simp only [List.foldl_map]

section
variable {W : Type} {border : Nat} {shell : Shell W} {start : Memory × W} {texts : Nat → Text} {pids : Finset Nat}
  {k : Kernel W} {s : Progress}

/-- All slots that are taken for the starts of frames behind the loop. -/
def allStarts (k : Kernel W) : List Nat := k.allPcb.flatMap fun p => freedStarts (k.pcbs p)

theorem mem_allStarts {start : Nat} : start ∈ allStarts k ↔
    ∃ p ∈ k.allPcb, ∃ i < (k.pcbs p).pageTableSize, ∃ j < 3, (k.entry (p,i)).index j = start := by
  unfold allStarts freedStarts
  simp only [List.mem_flatMap,List.mem_map,List.mem_range]
  rfl

theorem freeAll_slot (k : Kernel W) (n : Nat) :
    (freeAll k).memory n = if ∃ start ∈ allStarts k, start ≤ n ∧ n < start + 3 then freeSlot else k.memory n := by
  have memory : (freeAll k).memory = (allStarts k).foldl clearFrame k.memory := by
    unfold freeAll allStarts
    simp only [freePCB_eq]
    rw [List.foldl_flatMap]
  rw [memory,clearFrames_slot]

/-- When all pages have been loaded, the slots that are cleared end two slots behind the last frame in use. -/
theorem Underway.cleared (kept : Underway border shell start texts pids k s)
    (all : ∀ p ∈ pids, s.loaded p = pagesOf (scripts texts p).length) (some : 0 < s.resident.length) (n : Nat) :
    (freeAll k).memory n = if n < 3*s.resident.length + 2 then freeSlot else k.memory n := by
  obtain ⟨follows,steady,_,_⟩ := kept
  rw [freeAll_slot]
  refine if_congr ⟨?_,?_⟩ rfl rfl
  · rintro ⟨_,listed,inside⟩
    obtain ⟨p,known,i,page,j,slot,rfl⟩ := mem_allStarts.mp listed
    have member := (follows.known p).mp known
    have runs := follows.runs p member
    rw [runs.table] at page
    by_cases resident : (p,i) ∈ s.resident
    · obtain ⟨frame,ours,framed⟩ := follows.framed _ resident
      have below := Finset.mem_range.mp ours
      have slot : (k.entry (p,i)).index j = 3*frame + j := congrFun framed.index j
      rw [slot] at inside
      omega
    · have start : (k.entry (p,i)).index j = 0 := runs.gone i ((all p member).symm ▸ page) resident j slot
      rw [start] at inside
      omega
  · intro below
    -- the last frame in use reaches two slots further
    obtain ⟨page,resident,start⟩ := follows.held (min (n/3) (s.resident.length - 1)) (Finset.mem_range.mpr (by omega))
    obtain ⟨frame,_,framed⟩ := follows.framed page resident
    have known := steady.sound.known page resident
    have runs := follows.runs page.1 known.1
    refine ⟨_,mem_allStarts.mpr ⟨page.1,(follows.known _).mpr known.1,page.2,?_,
      min 2 (n - 3*min (n/3) (s.resident.length - 1)),by omega,rfl⟩,?_⟩
    · rw [runs.table]
      exact (all _ known.1) ▸ known.2
    · have first : 3*frame + 0 = 3*min (n/3) (s.resident.length - 1) := (congrFun framed.index 0).symm.trans start
      have index : (k.entry (page.1,page.2)).index (min 2 (n - 3*min (n/3) (s.resident.length - 1))) =
          3*frame + min 2 (n - 3*min (n/3) (s.resident.length - 1)) := congrFun framed.index _
      rw [index]
      omega

/-- When all pages have been loaded and freed, the kernel is empty again. -/
theorem Underway.emptied (kept : Underway border shell start texts pids k s)
    (all : ∀ p ∈ pids, s.loaded p = pagesOf (scripts texts p).length) (some : 0 < s.resident.length) :
    EmptyKernel border (freeAll k) where
  queue := rfl
  lru := rfl
  none := rfl
  free i below := by
    rw [kept.cleared all some]
    split
    · rfl
    · refine kept.follows.free i below fun used => ?_
      have inside := Finset.mem_range.mp used
      omega

end

section
variable {W : Type} {z : Sizes} {around : Surroundings W} {scripts : List Text} {k k₀ : Kernel W}

/-- The frames that a run of the scripts takes in the end. -/
def framesTaken (border : Nat) (scripts : List Text) : Nat :=
  min (border/3) (scripts.map fun text => pagesOf (lines text).length).sum

theorem framesTaken_pos (ready : Executable z around scripts k₀) (some : scripts ≠ []) :
    0 < framesTaken z.frameStoreSize scripts := by
  obtain ⟨text,rest,rfl⟩ := List.exists_cons_of_ne_nil some
  have fits := ready.fits
  have counted := (ready.counted text List.mem_cons_self).counted
  have lines : 0 < (lines text).length := counted ▸ Nat.succ_pos _
  unfold firstFrames at fits
  unfold framesTaken
  rw [List.map_cons,List.sum_cons,pagesOf_eq] at fits ⊢
  omega

/-- `exec` comes back with the kernel empty again. Of the variables, the first two slots are lost as far as the
two slots behind the last frame taken reach over the border. -/
theorem Executable.frees (ready : Executable z around scripts k₀) (some : scripts ≠ []) {k' : Kernel W} {s' : Progress}
    (kept : ExecUnderway z around scripts k₀ k' s')
    (done : ∀ p, s'.loaded p = pagesOf (lines (scriptOf scripts k₀.pidCounter p)).length) :
    EmptyKernel z.frameStoreSize (freeAll k') ∧
      ∀ i, (freeAll k').memory i = if i < 3*framesTaken z.frameStoreSize scripts + 2 then freeSlot else k'.memory i := by
  have all : ∀ p ∈ Finset.Ico k₀.pidCounter (k₀.pidCounter + scripts.length),
      s'.loaded p = pagesOf (Demand.scripts (scriptOf scripts k₀.pidCounter) p).length := by
    intro p _
    rw [done p,Demand.scripts,keptLines,List.length_map]
  have taken : s'.resident.length = framesTaken z.frameStoreSize scripts := by
    rw [kept.filled,Finset.sum_congr rfl fun p _ => done p]
    exact congrArg (min (z.frameStoreSize/3)) (sum_scripts (fun text => pagesOf (lines text).length) scripts _)
  have positive : 0 < s'.resident.length := taken ▸ framesTaken_pos ready some
  refine ⟨kept.emptied all positive,fun i => ?_⟩
  rw [kept.cleared all positive,taken]

/-- The variables in the first two slots are lost in this run. -/
example : 3*framesTaken 9 sampleScripts + 2 = 11 := by decide

/-- What the user may enter: a line, or an `exec` of scripts that can be opened. -/
inductive Request where
  | line (text : Text)
  | exec (scripts : List Text)

/-- The loop of `main`, which ends after a command that returns -1. -/
def session (z : Sizes) (around : Surroundings W) (fuel : Nat) : List Request → Kernel W → Option (Kernel W)
  | [], k => some k
  | .line text :: requests, k =>
    let (ret,memory,world) := parseInput z around text k.memory k.world
    let k := {k with memory := memory, world := world}
    if ret = -1 then some k else session z around fuel requests k
  | .exec scripts :: requests, k => do
    let k ← exec z.frameStoreSize (parseInput z around) fuel scripts k
    session z around fuel requests k

/-- What can be entered at any time. -/
def Request.Possible (z : Sizes) (around : Surroundings W) : Request → Prop
  | .line text => Harmless around text
  | .exec scripts => scripts ≠ [] ∧ (∀ text ∈ scripts, Counted text) ∧
    (∀ text ∈ scripts, ∀ line ∈ keptLines text, Harmless around line) ∧ firstFrames scripts ≤ z.frameStoreSize/3

end
end MyShell.Demand
