import Mathlib.Logic.Function.Basic
import MyShell.Demand.Script

/-! The frame store of the demand-paging shell, shellmemory.c, and the processes with their page
tables, pcb.c. -/
namespace MyShell.Demand
open TextFile

structure Slot where
  var : Text
  value : Text
deriving DecidableEq

/-- The array `shellmemory`. Frames are below `FRAME_VAR_BORDER`, variables from there on. -/
abbrev Memory := Nat → Slot

/-- The string that marks a free slot. -/
def noneText : Text := ['n','o','n','e']

def freeSlot : Slot := ⟨noneText,noneText⟩

def memInit : Memory := fun _ => freeSlot

def memFreeAt (m : Memory) (pos : Nat) : Memory := Function.update m pos freeSlot

/-- The three slots from `i` on are below the border and free. -/
def freeFrame (border : Nat) (m : Memory) (i : Nat) : Bool :=
  (List.range' i pageLines).all fun j => decide (j < border) && (m j).var == noneText

/-- The first three slots in a row that are free, now marked with `pid`. -/
def frameAlloc (border : Nat) (m : Memory) (pid : Text) : Option (Nat × Memory) :=
  ((List.range border).find? (freeFrame border m)).map fun i =>
    (i,fun k => if i ≤ k ∧ k < i + pageLines then {m k with var := pid} else m k)

/-- `strdup` ends a string at its first null character. -/
def memSetValueAt (m : Memory) (pos : Nat) (pid value : Text) : Memory :=
  Function.update m pos ⟨pid,value.takeWhile fun c => c ≠ '\x00'⟩

def clearFrame (m : Memory) (start : Nat) : Memory := (List.range' start pageLines).foldl memFreeAt m

structure Page where
  index : Nat → Nat
  validBit : Nat → Bool
  pageIndex : Nat
  pagePid : Nat

structure PCB where
  pid : Nat
  size : Int
  programCounter : Nat → Nat
  pageTable : Nat → Page
  pageTableSize : Nat
  sourceFile : TextFile

/-- `PAGE_table_size` -/
def pagesOf (lines : Nat) : Nat := if lines % pageLines = 0 then lines / pageLines else lines / pageLines + 1

def pageInit (pid i : Nat) : Page := ⟨fun _ => 1000,fun _ => false,i,pid⟩

/-- `sprintf` of a process number. -/
def pidText (pid : Nat) : Text := Nat.toDigits 10 pid

/-- The lines of a page go to its slots in turn, which makes them valid. -/
def storeLines (pid : Text) : Nat → List Text → Memory × Page → Memory × Page
  | _, [], stored => stored
  | j, line :: lines, (m,page) =>
    storeLines pid (j+1) lines
      (memSetValueAt m (page.index j) pid line,{page with validBit := Function.update page.validBit j true})

/-- `load_PAGE`, which reads the next lines of the file whatever the page is. Without a free
frame there is no result. -/
def loadPage (border : Nat) (m : Memory) (pcb : PCB) (i : Nat) : Option (Memory × PCB) :=
  (frameAlloc border m (pidText pcb.pid)).map fun (start,m) =>
    let page := {pcb.pageTable i with index := fun j => start + j, validBit := fun _ => false}
    let read := readLines pageLines pcb.sourceFile
    let stored := storeLines (pidText pcb.pid) 0 read.1 (m,page)
    (stored.1,{pcb with pageTable := Function.update pcb.pageTable i stored.2, sourceFile := read.2})

/-- A process before its first pages are loaded. -/
def newPCB (pid : Nat) (text : Text) : PCB where
  pid := pid
  size := countLines text
  programCounter := fun _ => 0
  pageTable := pageInit pid
  pageTableSize := pagesOf (countLines text)
  sourceFile := startOfFile text

/-- The pages that a process starts with. -/
def firstPages (pcb : PCB) : List Nat := List.range (if pcb.pageTableSize < 2 then pcb.pageTableSize else 2)

/-- `PCB_init` of a script that can be opened. The program exits if a page finds no frame. -/
def pcbInit (border : Nat) (m : Memory) (pid : Nat) (text : Text) : Option (Memory × PCB) :=
  (firstPages (newPCB pid text)).foldlM (fun stored i => loadPage border stored.1 stored.2 i) (m,newPCB pid text)

/-- `PAGE_evict` without its output. -/
def pageEvict (m : Memory) (pcb : PCB) (i : Nat) : Memory × PCB :=
  let page := pcb.pageTable i
  let evicted := {page with
    index := fun j => if j < pageLines then 0 else page.index j
    validBit := fun j => if j < pageLines then false else page.validBit j}
  ((List.range pageLines).foldl (fun m j => memFreeAt m (page.index j)) m,
    {pcb with pageTable := Function.update pcb.pageTable i evicted})

def pcbDone (pcb : PCB) : Bool := (List.range pcb.pageTableSize).all fun i => pcb.programCounter i == pageLines

/-- `free_PCB` clears three slots from each of the three indices of a page on. -/
def freePCB (m : Memory) (pcb : PCB) : Memory :=
  (List.range pcb.pageTableSize).foldl (fun m i =>
    (List.range pageLines).foldl (fun m j => clearFrame m ((pcb.pageTable i).index j)) m) m

end MyShell.Demand
