import MyShell.Paging.Frames
import MyShell.Paging.Kernel

/-! Recency of frames over a run, and the victim of an eviction. The history knows when a
frame was last loaded or executed; the victim is chosen by the stamps of first lines. -/
namespace MyShell.Paging

/-- What the steps of a process preserve, its calls preserve. -/
structure Preserved (z : Sizes) (holds : Machine → Prop) : Prop where
  load : ∀ m fp filename table pageNum, holds m → holds (loadPage z m fp filename table pageNum).2.1
  ready : ∀ m ready, holds m → holds {m with kernel := {m.kernel with ready := ready}}
  setValue : ∀ m varIn valueIn, holds m → holds {m with kernel := memSetValue z m.kernel varIn valueIn}
  resetMem : ∀ m, holds m → holds {m with kernel := variableStoreMemInit z m.kernel}
  execute : ∀ m slot line, holds m → holds {m with history := .executed slot line :: m.history}
  stamp : ∀ m lineNum, holds m → holds {m with kernel := incrementLastused z m.kernel lineNum}

namespace Preserved
variable {z : Sizes} {holds : Machine → Prop} (kept : Preserved z holds) (scripts : Text → Option Text)
include kept

theorem processInitialize (m : Machine) (filename : Text) (before : holds m) :
    holds (processInitialize z scripts m filename).2 := by
  simp only [Paging.processInitialize]
  split
  · exact before
  · exact kept.ready _ _ (kept.load _ _ _ _ _ (kept.load _ _ _ _ _ before))

theorem initializeAll (names : List Text) (m : Machine) (before : holds m) :
    holds (initializeAll z scripts names m) := by
  induction names generalizing m with
  | nil => exact before
  | cons filename names ih =>
    have after := kept.processInitialize scripts m filename before
    simp only [Paging.initializeAll]
    split
    · rename_i m' started
      rw [started] at after
      exact ih m' after
    · rename_i m' _ started
      rw [started] at after
      exact after

theorem interpreter (m m' : Machine) (args : List Text) (before : holds m)
    (done : interpreter z scripts m args = some m') : holds m' := by
  simp only [Paging.interpreter] at done
  split at done
  · exact absurd done.symm (Option.some_ne_none _)
  · rename_i var value _
    exact Option.some.inj done ▸ kept.setValue m var value before
  · exact Option.some.inj done ▸ kept.resetMem m before
  · rename_i names _
    exact Option.some.inj done ▸ kept.initializeAll scripts names m before
  · exact Option.some.inj done ▸ before

theorem runCommands (commands : List (List Text)) (m : Machine) (before : holds m) :
    holds (runCommands z scripts commands m).2 := by
  induction commands generalizing m with
  | nil => exact before
  | cons args commands ih =>
    simp only [Paging.runCommands]
    split
    · rename_i m' done
      exact ih m' (kept.interpreter scripts m m' args before done)
    · exact before

theorem parseInput (m : Machine) (line : Text) (before : holds m) :
    holds (parseInput z scripts m line).2 := by
  simp only [Paging.parseInput]
  split
  · exact before
  · exact kept.runCommands scripts _ m before

theorem locate (rounds : Nat) (m : Machine) (pcb : PCB) (before : holds m) :
    holds (locate z rounds m pcb).2.2.1 := by
  induction rounds generalizing m pcb with
  | zero => exact before
  | succ rounds ih =>
    simp only [Paging.locate]
    split
    · exact before
    · have loaded := kept.load m (TextFile.fseek (-3) pcb.fp) pcb.filename emptyTable 0 before
      split
      · exact ih _ _ loaded
      · exact loaded

theorem interrupt (m : Machine) (before : holds m) : holds (interrupt m) := by
  simp only [Paging.interrupt]
  split
  · exact before
  · exact kept.ready m _ before

theorem turnPage (m : Machine) (pcb : PCB) (pageNum : Nat) (before : holds m) :
    holds (turnPage z m pcb pageNum).2.2.1 := by
  simp only [Paging.turnPage]
  split
  · split
    · exact before
    · split
      · have loaded := kept.load (Paging.interrupt m) pcb.fp pcb.filename pcb.pageTable (pageNum+1)
          (kept.interrupt m before)
        split <;> exact loaded
      · exact before
  · exact before

theorem executeLine (m : Machine) (pcb : PCB) (before : holds m) :
    holds (executeLine z scripts m pcb).2.1 := by
  simp only [Paging.executeLine]
  split
  · exact before
  · rename_i line _
    split
    · exact before
    · have done := kept.parseInput scripts _ line (kept.execute m (pcb.pc+1-1) line before)
      split
      · rename_i m' stopped
        rw [stopped] at done
        exact done
      · rename_i m' back
        rw [back] at done
        exact kept.stamp m' _ done

theorem executeLines (quanta pageNum : Nat) (m : Machine) (pcb : PCB) (before : holds m) :
    holds (executeLines z scripts quanta pageNum m pcb).2.1 := by
  induction quanta generalizing pageNum m pcb with
  | zero => exact before
  | succ quanta ih =>
    have turned := kept.turnPage m pcb pageNum before
    simp only [Paging.executeLines]
    split
    · rename_i pageNum' m' pcb' page
      rw [page] at turned
      have done := kept.executeLine scripts m' pcb' turned
      split
      · rename_i m'' pcb'' back
        rw [back] at done
        exact ih _ _ _ done
      · exact done
    · rename_i page
      rw [page] at turned
      exact turned

theorem executeProcess (rounds quanta : Nat) (m : Machine) (pcb : PCB) (before : holds m) :
    holds (executeProcess z scripts rounds quanta m pcb).2.1 := by
  have found := kept.locate rounds m pcb before
  simp only [Paging.executeProcess]
  split
  · rename_i page
    rw [page] at found
    exact kept.executeLines scripts quanta _ _ _ found
  · rename_i page
    rw [page] at found
    exact found

end Preserved

/-- Every machine that a run over any processes and ready queues reaches, in the middle of a
call too: a call with too few `rounds` is an unfinished one. -/
inductive Runs (z : Sizes) : Machine → Prop
  | start (k : Kernel) : Runs z ⟨memInit z k,[]⟩
  | newProcess (scripts : Text → Option Text) (m : Machine) (filename : Text) :
      Runs z m → Runs z (processInitialize z scripts m filename).2
  | schedule (m : Machine) (ready : List PCB) :
      Runs z m → Runs z {m with kernel := {m.kernel with ready := ready}}
  | setValue (m : Machine) (varIn valueIn : Text) :
      Runs z m → Runs z {m with kernel := memSetValue z m.kernel varIn valueIn}
  | resetMem (m : Machine) : Runs z m → Runs z {m with kernel := variableStoreMemInit z m.kernel}
  | execute (scripts : Text → Option Text) (rounds quanta : Nat) (m : Machine) (pcb : PCB) :
      Runs z m → Runs z (executeProcess z scripts rounds quanta m pcb).2.1

theorem Runs.turnRR (z : Sizes) (scripts : Text → Option Text) (rounds quanta : Nat) (m : Machine)
    (run : Runs z m) : Runs z (turnRR z scripts rounds quanta m) := by
  simp only [Paging.turnRR]
  split
  · exact run
  · rename_i pcb popped found
    have rest : Runs z popped := by
      simp only [readyQueuePopHead] at found
      split at found
      · exact absurd found.symm (Option.some_ne_none _)
      · exact (Prod.mk.inj (Option.some.inj found)).2 ▸ run.schedule m _
    have executed := rest.execute scripts rounds quanta popped pcb
    split
    · rename_i m' pcb' back
      rw [back] at executed
      exact executed.schedule m' _
    · rename_i back
      rw [back] at executed
      exact executed

theorem Runs.holds (z : Sizes) (holds : Machine → Prop) (kept : Preserved z holds)
    (start : ∀ k, holds ⟨memInit z k,[]⟩) (m : Machine) (run : Runs z m) : holds m := by
  induction run with
  | start k => exact start k
  | newProcess scripts m filename _ ih => exact kept.processInitialize scripts m filename ih
  | schedule m ready _ ih => exact kept.ready m ready ih
  | setValue m varIn valueIn _ ih => exact kept.setValue m varIn valueIn ih
  | resetMem m _ ih => exact kept.resetMem m ih
  | execute scripts rounds quanta m pcb _ ih => exact kept.executeProcess scripts rounds quanta m pcb ih

/-- The event loads or executes a line of frame `g`. -/
def touches (g : Nat) : Event → Bool
  | .picked _ _ => false
  | .loaded start => decide (start / frameSize ≤ g) && decide (g ≤ (start+2) / frameSize)
  | .executed slot _ => decide ((g*frameSize : Int) ≤ slot) && decide (slot < (g+1)*frameSize)

/-- The number of the most recent event that touches frame `g`; 0 if there is none. -/
def latest (g : Nat) : List Event → Nat
  | [] => 0
  | event :: older => if touches g event then older.length+1 else latest g older

def LeastRecent (z : Sizes) (older : List Event) (frame : Nat) : Prop :=
  ∀ g < z.frameStoreSize, latest frame older ≤ latest g older

/-- The stamps of the first lines rank `frame` first: none is older, and none of a lower frame as old. -/
def FirstLineOldest (z : Sizes) (k : Kernel) (frame : Nat) : Prop :=
  ∀ g < z.frameStoreSize,
    (k.shellmemory (frame*frameSize)).lastUsed ≤ (k.shellmemory (g*frameSize)).lastUsed ∧
      (g < frame → (k.shellmemory (frame*frameSize)).lastUsed < (k.shellmemory (g*frameSize)).lastUsed)

theorem victimFrame_oldest (z : Sizes) (k : Kernel) (some_frame : 0 < z.frameStoreSize) :
    FirstLineOldest z k (victimFrame z k) :=
  (victim_scan (fun frame => (k.shellmemory (frame*frameSize)).lastUsed) z.frameStoreSize some_frame).2

theorem FirstLineOldest.unique (z : Sizes) (k : Kernel) (f g : Nat) (inside : f < z.frameStoreSize)
    (bound : g < z.frameStoreSize) (first : FirstLineOldest z k f) (second : FirstLineOldest z k g) : f = g := by
  have forward := first g bound
  have backward := second f inside
  omega

/-- Every eviction of a run chose the victim by the stamps of the kernel in which it was called. -/
theorem Runs.victims (z : Sizes) (m : Machine) (run : Runs z m) (k : Kernel) (victim : Nat)
    (picked : .picked k victim ∈ m.history) : victim = victimFrame z k := by
  refine Runs.holds z (fun m => ∀ k victim, .picked k victim ∈ m.history → victim = victimFrame z k) ?_
    (fun _ _ _ none => absurd none List.not_mem_nil) m run k victim picked
  refine ⟨fun m fp filename table pageNum before k victim member => ?_,fun _ _ before => before,
    fun _ _ _ before => before,fun _ before => before,fun m slot line before k victim member => ?_,
    fun _ _ before => before⟩
  · simp only [loadPage,List.mem_append] at member
    obtain (load | pick) | old := member
    · split at load
      · simp at load
      · exact absurd load List.not_mem_nil
    · split at pick
      · simp only [List.mem_singleton,Event.picked.injEq] at pick
        obtain ⟨rfl,rfl⟩ := pick
        rfl
      · exact absurd pick List.not_mem_nil
    · exact before k victim old
  · obtain same | old := List.mem_cons.mp member
    · exact Event.noConfusion same
    · exact before k victim old

/-- Two processes of one line that share a frame: the second load evicts the first process's page. -/
def oneLine (filename : Text) : Option Text := if filename = ['p'] ∨ filename = ['q'] then some ['a'] else none

def oneLineLoaded : Machine := (processInitialize oneFrame oneLine ⟨started oneFrame,[]⟩ ['p']).2

/-- Some eviction in the history did not take a least recently used frame. -/
def missesLeastRecent (z : Sizes) : List Event → Bool
  | [] => false
  | .picked _ victim :: older =>
    !((List.range z.frameStoreSize).all fun g => decide (latest victim older ≤ latest g older)) ||
      missesLeastRecent z older
  | .loaded _ :: older => missesLeastRecent z older
  | .executed _ _ :: older => missesLeastRecent z older

theorem missesLeastRecent_spec (z : Sizes) (history : List Event) (missed : missesLeastRecent z history = true) :
    ∃ newer older k victim, history = newer ++ .picked k victim :: older ∧ ¬LeastRecent z older victim := by
  induction history with
  | nil => exact Bool.noConfusion missed
  | cons event history ih =>
    have later (rest : missesLeastRecent z history = true) : ∃ newer older k victim,
        event :: history = newer ++ .picked k victim :: older ∧ ¬LeastRecent z older victim := by
      obtain ⟨newer,older,k,victim,split,recent⟩ := ih rest
      exact ⟨event :: newer,older,k,victim,congrArg _ split,recent⟩
    cases event with
    | picked k victim =>
      simp only [missesLeastRecent,Bool.or_eq_true] at missed
      obtain here | rest := missed
      · refine ⟨[],history,k,victim,rfl,fun least => ?_⟩
        have every : ((List.range z.frameStoreSize).all fun g =>
            decide (latest victim history ≤ latest g history)) = true :=
          List.all_eq_true.mpr fun g member => decide_eq_true (least g (List.mem_range.mp member))
        rw [every] at here
        exact Bool.noConfusion here
      · exact later rest
    | loaded start => exact later missed
    | executed slot line => exact later missed

/-- Two frames: `p` has two lines and one that starts `r`, `q` has three lines. -/
def twoFrames : Sizes := ⟨6,4⟩

def threeScripts (filename : Text) : Option Text :=
  if filename = ['p'] then some ['a','\n','b','\n','r','u','n',' ','r']
  else if filename = ['q'] then some ['g','\n','h','\n','i']
  else if filename = ['r'] then some ['x']
  else none

/-- `exec p q` before its first turn. -/
def twoLoaded : Machine :=
  (processInitialize twoFrames threeScripts
    (processInitialize twoFrames threeScripts ⟨started twoFrames,[]⟩ ['p']).2 ['q']).2

theorem twoLoaded_runs : Runs twoFrames twoLoaded := .newProcess _ _ _ (.newProcess _ _ _ (.start _))

def threeTurns : Machine :=
  turnRR twoFrames threeScripts 1 2 (turnRR twoFrames threeScripts 1 2 (turnRR twoFrames threeScripts 1 2 twoLoaded))

end MyShell.Paging
