import Mathlib.Logic.Function.Basic
import MyShell.Lib.TextFile

/-! The shell memory of the paging shell: a frame store of frames of three lines below
`THRESHOLD`, the variable store above it, and the loading of a page into a frame. -/
namespace MyShell.Paging

abbrev Text := List Char

/-- The sizes fixed by the build: `-D THRESHOLD=...` and `-D VARMEMSIZE=...`. -/
structure Sizes where
  threshold : Nat
  varmemsize : Nat

abbrev frameSize : Nat := 3

abbrev pageTableSize : Nat := 20

def Sizes.frameStoreSize (z : Sizes) : Nat := z.threshold / frameSize

def Sizes.shellMemLength (z : Sizes) : Nat := z.varmemsize + z.threshold

/-- The string that marks an empty slot. -/
def noneText : Text := ['n','o','n','e']

structure MemoryStruct where
  var : Text
  value : Text
  lastUsed : Nat
deriving DecidableEq

def emptySlot (lastUsed : Nat) : MemoryStruct := ⟨noneText,noneText,lastUsed⟩

/-- A page table: the frame of each page, -1 for a page that is not resident. -/
abbrev PageTable := Nat → Int

structure PCB where
  pc : Int
  pageTable : PageTable
  fp : TextFile
  filename : Text

/-- The globals of the kernel: shell memory, timer and ready queue. -/
structure Kernel where
  shellmemory : Nat → MemoryStruct
  timer : Nat
  ready : List PCB

def setSlot (k : Kernel) (line : Nat) (slot : MemoryStruct) : Kernel :=
  {k with shellmemory := Function.update k.shellmemory line slot}

def memInit (z : Sizes) (k : Kernel) : Kernel :=
  {k with shellmemory := fun i => if i < z.shellMemLength then emptySlot k.timer else k.shellmemory i}

def variableStoreMemInit (z : Sizes) (k : Kernel) : Kernel :=
  {k with shellmemory := fun i =>
    if z.threshold ≤ i ∧ i < z.shellMemLength then emptySlot (k.shellmemory i).lastUsed else k.shellmemory i}

/-- The slots of the variable store, in the order of the loops over it. -/
def Sizes.variableSlots (z : Sizes) : List Nat := List.range' z.threshold z.varmemsize

def memSetValue (z : Sizes) (k : Kernel) (varIn valueIn : Text) : Kernel :=
  match z.variableSlots.find? fun i => (k.shellmemory i).var == varIn with
  | some i => setSlot k i {k.shellmemory i with value := valueIn}
  | none =>
    match z.variableSlots.find? fun i => (k.shellmemory i).var == noneText with
    | some i => setSlot k i {k.shellmemory i with var := varIn, value := valueIn}
    | none => k

def memGetValue (z : Sizes) (k : Kernel) (varIn : Text) : Option Text :=
  (z.variableSlots.find? fun i => (k.shellmemory i).var == varIn).map fun i => (k.shellmemory i).value

def incrementLastused (z : Sizes) (k : Kernel) (lineNum : Int) : Kernel :=
  let k := {k with timer := k.timer+1}
  if 0 ≤ lineNum ∧ lineNum < z.threshold then
    setSlot k lineNum.toNat {k.shellmemory lineNum.toNat with lastUsed := k.timer}
  else k

/-- The least `last_used` over the first lines of the frames, the lowest frame among equals. -/
def victimFrame (z : Sizes) (k : Kernel) : Nat :=
  (List.range z.frameStoreSize).foldl (fun victim frame =>
    if (k.shellmemory (frame*frameSize)).lastUsed < (k.shellmemory (victim*frameSize)).lastUsed then frame
    else victim) 0

/-- Every entry of one's own page table that names the victim. -/
def forgetOwn (victim : Nat) (table : PageTable) : PageTable := fun i =>
  if i < pageTableSize ∧ table i = victim then -1 else table i

/-- The first entry of the first process in the ready queue that names the victim. -/
def forgetReady (victim : Nat) : List PCB → List PCB
  | [] => []
  | pcb :: rest =>
    match (List.range pageTableSize).find? fun i => pcb.pageTable i == (victim : Int) with
    | some i => {pcb with pageTable := Function.update pcb.pageTable i (-1)} :: rest
    | none => pcb :: forgetReady victim rest

def evictFrame (k : Kernel) (victim : Nat) : Kernel :=
  {k with shellmemory := fun i =>
    if victim*frameSize ≤ i ∧ i < (victim+1)*frameSize then emptySlot 0 else k.shellmemory i}

def pickVictimFrame (z : Sizes) (k : Kernel) (table : PageTable) : Nat × Kernel × PageTable :=
  let victim := victimFrame z k
  (victim,evictFrame {k with ready := forgetReady victim k.ready} victim,forgetOwn victim table)

/-- What the loop of `load_page_into_frame_store` carries along. -/
structure Loading where
  kernel : Kernel
  fp : TextFile
  pageTable : PageTable
  errorCode : Nat

/-- `while ((j - i) % FRAME_SIZE != 0)`: pad the rest of the page. -/
def padPage (filename : Text) (i : Nat) : Nat → Nat → Kernel → Kernel
  | 0, _, k => k
  | fuel+1, j, k =>
    if (j-i) % frameSize ≠ 0 then padPage filename i fuel (j+1) (setSlot k j ⟨filename,noneText,0⟩)
    else k

/-- A line of the file goes to slot `j`; the first one enters its frame into the page table. -/
def storeLine (filename : Text) (i pageNum j : Nat) (line : Text) (l : Loading) : Loading :=
  {l with
    kernel := setSlot l.kernel j ⟨filename,line.takeWhile (· ≠ '\x00'),l.kernel.timer⟩
    pageTable :=
      if (j-i) % frameSize = 0 ∧ pageNum < pageTableSize then
        Function.update l.pageTable pageNum ((j / frameSize : Nat) : Int)
      else l.pageTable
    errorCode := 0}

/-- The loop over `j` up to `THRESHOLD`; the first argument counts the values of `j` left. -/
def loadLines (z : Sizes) (filename : Text) (i pageNum : Nat) : Nat → Nat → Loading → Loading
  | 0, _, l => l
  | left+1, j, l =>
    if l.fp.eof then {l with kernel := padPage filename i frameSize j l.kernel}
    else if j = z.threshold then l
    else if (j-i) % frameSize = 0 ∧ j ≠ i then l
    else
      match TextFile.fgets z.shellMemLength l.fp with
      -- `continue` leaves slot `j` as it is
      | (none,fp) => loadLines z filename i pageNum left (j+1) {l with fp := fp}
      | (some line,fp) =>
        loadLines z filename i pageNum left (j+1) (storeLine filename i pageNum j line {l with fp := fp})

def firstHole (z : Sizes) (k : Kernel) : Option Nat :=
  (List.range z.threshold).find? fun i => (k.shellmemory i).var == noneText

/-- The place of the page: the first hole, or the frame of the victim. -/
def choosePlace (z : Sizes) (k : Kernel) (fp : TextFile) (table : PageTable) : Nat × Kernel × PageTable :=
  match firstHole z k with
  | some i => (i,k,table)
  | none =>
    if fp.eof then (z.threshold,k,table)
    else
      let (victim,k,table) := pickVictimFrame z k table
      (victim*frameSize,k,table)

def loadPageIntoFrameStore (z : Sizes) (k : Kernel) (fp : TextFile) (filename : Text) (table : PageTable)
    (pageNum : Nat) : Loading :=
  let (i,k,table) := choosePlace z k fp table
  loadLines z filename i pageNum (z.threshold+1-i) i ⟨k,fp,table,21⟩

def memGetValueAtLine (z : Sizes) (k : Kernel) (index : Int) : Option Text :=
  if index < 0 ∨ (z.shellMemLength : Int) < index then none else some (k.shellmemory index.toNat).value

end MyShell.Paging
