import MyShell.Demand.Paging

/-! kernel.c and cpu.c of the demand-paging shell. The lists are those of linked_list.c as sequences,
and a page is known by its process and its place in the page table. -/
namespace MyShell.Demand

/-- What a run does with the pages. -/
inductive Event where
  | executed (page : Nat × Nat) (line : Text)
  | loaded (page : Nat × Nat)
  | evicted (page : Nat × Nat)
deriving DecidableEq

/-- The globals of the kernel with its processes by their number, and the events of the run, the newest first.
`W` is the state of the shell outside the kernel. -/
structure Kernel (W : Type) where
  memory : Memory
  pcbs : Nat → PCB
  allPcb : List Nat
  queue : List Nat
  lruCache : List (Nat × Nat)
  pidCounter : Nat
  world : W
  history : List Event

/-- `parseInput` of one line, with its result. -/
abbrev Shell (W : Type) := Text → Memory → W → Int × Memory × W

/-- `mem_init` and `kernel_setup`. -/
def kernelSetup {W : Type} (world : W) : Kernel W where
  memory := memInit
  pcbs := fun pid => newPCB pid []
  allPcb := []
  queue := []
  lruCache := []
  pidCounter := 1
  world := world
  history := []

section
variable {W : Type} (border : Nat) (shell : Shell W)

/-- A new process at the end of the ready queue. There is no result if the program exits. -/
def newProc (k : Kernel W) (text : Text) : Option (Kernel W) := do
  let stored ← pcbInit border k.memory k.pidCounter text
  let pages := (firstPages stored.2).map fun i => (k.pidCounter,i)
  pure {k with
    memory := stored.1
    pcbs := Function.update k.pcbs k.pidCounter stored.2
    allPcb := k.allPcb ++ [k.pidCounter]
    queue := k.queue ++ [k.pidCounter]
    lruCache := pages.reverse ++ k.lruCache
    pidCounter := k.pidCounter + 1
    history := (pages.map Event.loaded).reverse ++ k.history}

/-- `cpu_run` of the line `j` of a page. A page fault has the result 1. -/
def cpuRun (k : Kernel W) (pid i j : Nat) : Int × Kernel W :=
  let pcb := k.pcbs pid
  if (pcb.pageTable i).validBit j then
    let line := (k.memory ((pcb.pageTable i).index j)).value
    let (ret,memory,world) := shell line k.memory k.world
    (ret,{k with
      memory := memory
      world := world
      pcbs := Function.update k.pcbs pid {pcb with
        programCounter := Function.update pcb.programCounter i (pcb.programCounter i + 1), size := pcb.size - 1}
      history := .executed (pid,i) line :: k.history})
  else (1,k)

/-- `load_PAGE` inside the kernel. -/
def load (k : Kernel W) (pid i : Nat) : Option (Kernel W) :=
  (loadPage border k.memory (k.pcbs pid) i).map fun stored =>
    {k with memory := stored.1, pcbs := Function.update k.pcbs pid stored.2, history := .loaded (pid,i) :: k.history}

/-- The page used least recently loses its frame. The search for its process leaves the list of
the processes if it is not there. -/
def evictVictim (k : Kernel W) : Option (Kernel W) := do
  let (pid,i) ← k.lruCache.getLast?
  if pid ∈ k.allPcb then
    let stored := pageEvict k.memory (k.pcbs pid) i
    pure {k with
      memory := stored.1
      pcbs := Function.update k.pcbs pid stored.2
      lruCache := k.lruCache.dropLast
      history := .evicted (pid,i) :: k.history}
  else none

/-- The page fault of `run_proc`. The result of the second load is not looked at. -/
def pageFault (k : Kernel W) (pid i : Nat) : Option (Kernel W) := do
  let k ← match load border k pid i with
    | some k => pure k
    | none => do
      let k ← evictVictim k
      pure ((load border k pid i).getD k)
  pure {k with lruCache := (pid,i) :: k.lruCache, queue := k.queue ++ [pid]}

/-- The pages are compared by their first index, and a page that is not in the list would be the
null pointer. -/
def useAgain (k : Kernel W) (pid i : Nat) : Option (Kernel W) := do
  let page ← k.lruCache.find? fun p =>
    ((k.pcbs p.1).pageTable p.2).index 0 == ((k.pcbs pid).pageTable i).index 0
  pure {k with lruCache := page :: k.lruCache.erase page}

/-- `run_proc` runs one line of the page `i`, or serves a page fault; also what tells it so. -/
def runProc (k : Kernel W) (pid i : Nat) : Option (Bool × Kernel W) :=
  let (ret,k) := cpuRun shell k pid i ((k.pcbs pid).programCounter i)
  if ret = 1 then do
    let k ← pageFault border k pid i
    pure (true,k)
  else do
    let k ← useAgain k pid i
    pure (false,k)

/-- The first page that is not through. -/
def currentPage (pcb : PCB) : Nat :=
  ((List.range pcb.pageTableSize).find? fun i => pcb.programCounter i != pageLines).getD pcb.pageTableSize

/-- `run_proc` for the current page. There is none behind the page table, and no line behind a page. -/
def runCurrent (k : Kernel W) (pid : Nat) : Option (Bool × Kernel W) :=
  let pcb := k.pcbs pid
  let i := currentPage pcb
  if i < pcb.pageTableSize ∧ pcb.programCounter i < pageLines then runProc border shell k pid i else none

/-- One pass of the loop of `run_proc_RR`. -/
def turnRR (k : Kernel W) : Option (Kernel W) :=
  match k.queue with
  | [] => none
  | pid :: rest => do
    let k := {k with queue := rest}
    if 1 < (k.pcbs pid).size then do
      let (fault,k) ← runCurrent border shell k pid
      if fault then pure k
      else do
        let (fault,k) ← runCurrent border shell k pid
        if fault then pure k else pure {k with queue := k.queue ++ [pid]}
    else if (k.pcbs pid).size = 1 then do
      let (_,k) ← runCurrent border shell k pid
      pure k
    else pure k

def queueDone (k : Kernel W) : Bool := k.queue.all fun pid => pcbDone (k.pcbs pid)

/-- The loop of `run_proc_RR`. -/
def runTurns : Nat → Kernel W → Option (Kernel W)
  | 0, _ => none
  | fuel+1, k =>
    if queueDone k then some k
    else do
      let k ← turnRR border shell k
      runTurns fuel k

/-- What `run_proc_RR` does behind its loop. -/
def freeAll (k : Kernel W) : Kernel W :=
  {k with
    memory := k.allPcb.foldl (fun m pid => freePCB m (k.pcbs pid)) k.memory
    allPcb := []
    queue := []
    lruCache := []}

def runProcRR (fuel : Nat) (k : Kernel W) : Option (Kernel W) := (runTurns border shell fuel k).map freeAll

/-- `exec` of scripts that can be opened, by the only policy it gets. The history is that of this run. -/
def exec (fuel : Nat) (texts : List Text) (k : Kernel W) : Option (Kernel W) :=
  if 3 < texts.length then some k
  else do
    let k ← texts.foldlM (newProc border) {k with history := []}
    runProcRR border shell fuel k

end

end MyShell.Demand
