import MyShell.Paging.FrameStore

/-! The kernel of the paging shell: processes, the ready queue and `execute_process`,
with the history of page loads, evictions and executed lines. -/
namespace MyShell.Paging

/-- What happens to the frame store; `picked` keeps the kernel in which the victim was chosen. -/
inductive Event where
  | picked (k : Kernel) (victim : Nat)
  | loaded (start : Nat)
  | executed (slot : Int) (line : Text)

/-- The kernel and its history, the newest event first. -/
structure Machine where
  kernel : Kernel
  history : List Event

/-- How a call ends; `stopped` is a call that does not come back. -/
inductive Outcome where
  | ready
  | terminated
  | stopped
deriving DecidableEq

def emptyTable : PageTable := fun _ => -1

def loadPage (z : Sizes) (m : Machine) (fp : TextFile) (filename : Text) (table : PageTable) (pageNum : Nat) :
    Nat × Machine × TextFile × PageTable :=
  let picks : List Event :=
    if firstHole z m.kernel = none ∧ fp.eof = false then
      [.picked m.kernel (pickVictimFrame z m.kernel table).1]
    else []
  let l := loadPageIntoFrameStore z m.kernel fp filename table pageNum
  let loads : List Event :=
    if l.errorCode = 0 then [.loaded (choosePlace z m.kernel fp table).1] else []
  (l.errorCode,⟨l.kernel,loads ++ picks ++ m.history⟩,l.fp,l.pageTable)

def readyQueueAddToTail (m : Machine) (pcb : PCB) : Machine :=
  {m with kernel := {m.kernel with ready := m.kernel.ready ++ [pcb]}}

def fileDoesNotExist : Nat := 1

def badCommand : Nat := 9

/-- `scripts` are the files that can be copied to the backing store. Both loads may fail. -/
def processInitialize (z : Sizes) (scripts : Text → Option Text) (m : Machine) (filename : Text) : Nat × Machine :=
  match scripts filename with
  | none => (fileDoesNotExist,m)
  | some text =>
    let (_,m,fp,table) := loadPage z m ⟨text,0,false⟩ filename emptyTable 0
    let (_,m,fp,table) := loadPage z m fp filename table 1
    (0,readyQueueAddToTail m ⟨table 0*(frameSize : Int),table,fp,filename⟩)

/-- The words after the first two, with one space between them. -/
def joinWords : List Text → Text
  | [] => []
  | [word] => word
  | word :: words => word ++ ' ' :: joinWords words

/-- `exec` starts its scripts in turn and stops at the first that cannot be started. -/
def initializeAll (z : Sizes) (scripts : Text → Option Text) : List Text → Machine → Machine
  | [], m => m
  | filename :: filenames, m =>
    match processInitialize z scripts m filename with
    | (0,m) => initializeAll z scripts filenames m
    | (_,m) => m

inductive Command where
  | quit
  | set (var value : Text)
  | resetmem
  | run (scripts : List Text)
  | other

/-- The commands of the interpreter by their words; the others print, or act outside the kernel. -/
def readCommand (args : List Text) : Command :=
  if args.length < 1 ∨ 7 < args.length then .other
  else
    match args.map fun arg => arg.takeWhile fun c => c ≠ '\r' ∧ c ≠ '\n' with
    | [['q','u','i','t']] => .quit
    | [['e','x','i','t']] => .quit
    | ['s','e','t'] :: var :: word :: words => .set var (joinWords (word :: words))
    | [['r','u','n'],script] => .run [script]
    | [['e','x','e','c'],a] => .run [a]
    | [['e','x','e','c'],a,b] => .run [a,b]
    | [['e','x','e','c'],a,b,c] => .run [a,b,c]
    | [['r','e','s','e','t','m','e','m']] => .resetmem
    | _ => .other

/-- A command inside a process: `schedule_by_policy` returns at once when `in_background` is set,
so `run` and `exec` only start their processes. -/
def interpreter (z : Sizes) (scripts : Text → Option Text) (m : Machine) (args : List Text) : Option Machine :=
  match readCommand args with
  | .quit => none
  | .set var value => some {m with kernel := memSetValue z m.kernel var value}
  | .resetmem => some {m with kernel := variableStoreMemInit z m.kernel}
  | .run names => some (initializeAll z scripts names m)
  | .other => some m

def endsWord (c : Char) : Bool := c == ';' || c == '\n' || c == ' '

/-- The scanning loop of `parseInput` at index `a`, where `ui` is what follows; the words of one
command are passed on at a `;` and at the end. A scan that never ends runs out of `turns`. -/
def scanInput : Nat → Nat → Text → List Text → Option (List (List Text))
  | 0, _, _, _ => none
  | turns+1, a, ui, words =>
    if 1000 ≤ a ∨ ui = [] ∨ ui.head? = some '\n' then some [words]
    else
      let ui' := ui.dropWhile (· = ' ')
      let a := a+(ui.length-ui'.length)
      if ui' = [] then some [words]
      else
        let word := (ui'.take (1000-a)).takeWhile fun c => !endsWord c
        let rest := ui'.drop word.length
        let a := a+word.length
        -- `continue`: the loop comes back with the same index
        if word = [] then scanInput turns a rest words
        else if rest.head? = some ';' then
          let spaces := (rest.tail.take (1000-(a+1))).takeWhile (· = ' ')
          (scanInput turns (a+1+spaces.length) (rest.tail.drop spaces.length) []).map fun commands =>
            (words ++ [word]) :: commands
        else scanInput turns (a+1) rest.tail (words ++ [word])

/-- The commands that `parseInput` passes to the interpreter. -/
def parseCommands (ui : Text) : Option (List (List Text)) :=
  let spaces := (ui.take 1000).takeWhile (· = ' ')
  scanInput (ui.length+2) spaces.length (ui.drop spaces.length) []

def runCommands (z : Sizes) (scripts : Text → Option Text) : List (List Text) → Machine → Bool × Machine
  | [], m => (true,m)
  | args :: commands, m =>
    match interpreter z scripts m args with
    | some m => runCommands z scripts commands m
    | none => (false,m)

/-- A line of a script; `false` when it does not come back. -/
def parseInput (z : Sizes) (scripts : Text → Option Text) (m : Machine) (line : Text) : Bool × Machine :=
  match parseCommands line with
  | none => (false,m)
  | some commands => runCommands z scripts commands m

/-- The page of the page table that holds the program counter, or ends at it. -/
def findPage (pcb : PCB) : Option Nat :=
  (List.range pageTableSize).find? fun n =>
    decide (pcb.pc = pcb.pageTable n*frameSize) ||
      (decide (pcb.pageTable n ≠ -1) && decide (pcb.pageTable n*frameSize ≤ pcb.pc) &&
        decide (pcb.pc ≤ pcb.pageTable n*frameSize+frameSize))

/-- The search for the program counter at the start of `execute_process`, with at most `rounds` reloads. -/
def locate (z : Sizes) : Nat → Machine → PCB → Outcome × Nat × Machine × PCB
  | 0, m, pcb => (.stopped,0,m,pcb)
  | rounds+1, m, pcb =>
    match findPage pcb with
    | some pageNum => (.ready,pageNum,m,pcb)
    | none =>
      let (errorCode,m,fp,table) := loadPage z m (TextFile.fseek (-3) pcb.fp) pcb.filename emptyTable 0
      let pcb := {pcb with fp := fp, pageTable := table}
      if errorCode = 0 then locate z rounds m pcb else (.terminated,0,m,pcb)

/-- At a page fault the head of the ready queue goes to its tail. -/
def interrupt (m : Machine) : Machine :=
  match m.kernel.ready with
  | [] => m
  | pcb :: rest => {m with kernel := {m.kernel with ready := rest ++ [pcb]}}

/-- The page from which the next line is read, and the program counter in it. -/
def turnPage (z : Sizes) (m : Machine) (pcb : PCB) (pageNum : Nat) : Outcome × Nat × Machine × PCB :=
  if pcb.pc % (frameSize : Int) = 0 ∧ pcb.pc ≠ pcb.pageTable pageNum*frameSize then
    let pageNum := pageNum+1
    if pageNum < pageTableSize ∧ 0 ≤ pcb.pageTable pageNum ∧ pcb.pageTable pageNum < z.frameStoreSize then
      (.ready,pageNum,m,{pcb with pc := pcb.pageTable pageNum*frameSize})
    else if pageNum < pageTableSize ∧ pcb.pageTable pageNum = -1 then
      let (errorCode,m,fp,table) := loadPage z (interrupt m) pcb.fp pcb.filename pcb.pageTable pageNum
      let pcb := {pcb with fp := fp, pageTable := table}
      if errorCode = 0 then (.ready,pageNum,m,{pcb with pc := pcb.pageTable pageNum*frameSize})
      else (.terminated,pageNum,m,pcb)
    else (.terminated,pageNum,m,pcb)
  else (.ready,pageNum,m,pcb)

/-- The line at the program counter is executed and stamped. -/
def executeLine (z : Sizes) (scripts : Text → Option Text) (m : Machine) (pcb : PCB) : Outcome × Machine × PCB :=
  match memGetValueAtLine z m.kernel pcb.pc with
  | none => (.stopped,m,pcb)
  | some line =>
    let pcb := {pcb with pc := pcb.pc+1}
    if line = noneText then (.terminated,m,pcb)
    else
      let m := {m with history := .executed (pcb.pc-1) line :: m.history}
      match parseInput z scripts m line with
      | (false,m) => (.stopped,m,pcb)
      | (true,m) => (.ready,{m with kernel := incrementLastused z m.kernel (pcb.pc-1)},pcb)

def executeLines (z : Sizes) (scripts : Text → Option Text) :
    Nat → Nat → Machine → PCB → Outcome × Machine × PCB
  | 0, _, m, pcb => (.ready,m,pcb)
  | quanta+1, pageNum, m, pcb =>
    match turnPage z m pcb pageNum with
    | (.ready,pageNum,m,pcb) =>
      match executeLine z scripts m pcb with
      | (.ready,m,pcb) => executeLines z scripts quanta pageNum m pcb
      | ended => ended
    | (outcome,_,m,pcb) => (outcome,m,pcb)

/-- `rounds` bounds the reloads of the search for the program counter. -/
def executeProcess (z : Sizes) (scripts : Text → Option Text) (rounds quanta : Nat) (m : Machine) (pcb : PCB) :
    Outcome × Machine × PCB :=
  match locate z rounds m pcb with
  | (.ready,pageNum,m,pcb) => executeLines z scripts quanta pageNum m pcb
  | (outcome,_,m,pcb) => (outcome,m,pcb)

def readyQueuePopHead (m : Machine) : Option (PCB × Machine) :=
  match m.kernel.ready with
  | [] => none
  | pcb :: rest => some (pcb,{m with kernel := {m.kernel with ready := rest}})

/-- One turn of the loop of `scheduler_RR`. -/
def turnRR (z : Sizes) (scripts : Text → Option Text) (rounds quanta : Nat) (m : Machine) : Machine :=
  match readyQueuePopHead m with
  | none => m
  | some (pcb,m) =>
    match executeProcess z scripts rounds quanta m pcb with
    | (.ready,m,pcb) => readyQueueAddToTail m pcb
    | (_,m,_) => m

end MyShell.Paging
