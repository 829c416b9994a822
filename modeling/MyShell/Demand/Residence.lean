import Mathlib.Data.List.GetD
import Mathlib.Data.List.Range
import MyShell.Demand.Turn

/-! The frames behind the progress of the processes: each resident page has a frame of three slots to itself,
with its owner's number and its lines; all other slots below the border are free. -/
namespace MyShell.Demand
open RecencyList TextFile

/-- The line as `strdup` keeps it. -/
def keptLine (line : Text) : Text := line.takeWhile fun c => c ≠ '\x00'

def keptLines (text : Text) : List Text := (lines text).map keptLine

theorem pidText_used (pid : Nat) : pidText pid ≠ noneText := by
  intro same
  have letter : 'n' ∈ pidText pid := by
    rw [same]
    exact List.mem_cons_self
  exact absurd (Nat.isDigit_of_mem_toDigits (by decide) (by decide) letter) (by decide)

theorem freeFrame_iff (border : Nat) (m : Memory) (i : Nat) :
    freeFrame border m i = true ↔ ∀ j, i ≤ j → j < i + 3 → j < border ∧ (m j).var = noneText := by
  unfold freeFrame
  rw [List.all_eq_true]
  constructor
  · intro all j least less
    have here := all j (List.mem_range'_1.mpr ⟨least,less⟩)
    rw [Bool.and_eq_true,decide_eq_true_eq,beq_iff_eq] at here
    exact here
  · intro all j member
    obtain ⟨least,less⟩ := List.mem_range'_1.mp member
    rw [Bool.and_eq_true,decide_eq_true_eq,beq_iff_eq]
    exact all j least less

/-- The slots below `start` are in use, the three from there on are free. -/
theorem frameAlloc_first (border : Nat) (m : Memory) (pid : Text) (start : Nat) (within : start + 3 ≤ border)
    (used : ∀ j < start, (m j).var ≠ noneText) (free : ∀ j, start ≤ j → j < start + 3 → (m j).var = noneText) :
    frameAlloc border m pid =
      some (start,fun k => if start ≤ k ∧ k < start + 3 then {m k with var := pid} else m k) := by
  have found : (List.range border).find? (freeFrame border m) = some start := by
    rw [List.find?_range_eq_some]
    refine ⟨(freeFrame_iff ..).mpr fun j least less => ⟨by omega,free j least less⟩,List.mem_range.mpr (by omega),?_⟩
    intro j less
    rw [Bool.not_eq_true']
    refine Bool.eq_false_iff.mpr fun here => ?_
    exact used j less ((freeFrame_iff ..).mp here j (Nat.le_refl _) (by omega)).2
  unfold frameAlloc
  rw [found]
  rfl

/-- There are not three slots behind those in use. -/
theorem frameAlloc_none (border : Nat) (m : Memory) (pid : Text) (start : Nat) (within : border < start + 3)
    (used : ∀ j < start, (m j).var ≠ noneText) : frameAlloc border m pid = none := by
  have found : (List.range border).find? (freeFrame border m) = none := by
    rw [List.find?_eq_none]
    intro j _ here
    have free := (freeFrame_iff ..).mp here
    by_cases less : j < start
    · exact used j less (free j (Nat.le_refl _) (by omega)).2
    · exact absurd (free (j+2) (by omega) (by omega)).1 (by omega)
  unfold frameAlloc
  rw [found]
  rfl

/-- The lines go to the slots of their page, and make them valid. -/
theorem storeLines_spec (pid : Text) (page : List Text) (start j : Nat) (m : Memory) (entry : Page)
    (place : entry.index = fun n => start + n) :
    (storeLines pid j page (m,entry)).2.index = entry.index ∧
      (∀ n, (storeLines pid j page (m,entry)).2.validBit n = (decide (j ≤ n ∧ n < j + page.length) || entry.validBit n)) ∧
      (∀ n, (storeLines pid j page (m,entry)).1 n =
        if start + j ≤ n ∧ n < start + j + page.length then ⟨pid,keptLine (page.getD (n-(start+j)) [])⟩ else m n) := by
  induction page generalizing j m entry with
  | nil =>
    refine ⟨rfl,fun n => ?_,fun n => ?_⟩
    · have none : ¬(j ≤ n ∧ n < j + 0) := by omega
      rw [storeLines,List.length_nil,decide_eq_false none]
      rfl
    · rw [storeLines,List.length_nil,if_neg (by omega)]
  | cons line page ih =>
    have rest := ih (j+1) (memSetValueAt m (entry.index j) pid line)
      {entry with validBit := Function.update entry.validBit j true} place
    obtain ⟨index,valid,memory⟩ := rest
    refine ⟨index,fun n => ?_,fun n => ?_⟩
    · rw [storeLines,valid]
      rcases eq_or_ne n j with rfl | other
      · simp
      · simp only [Function.update_of_ne other]
        refine congrArg (· || _) (decide_eq_decide.mpr ?_)
        rw [List.length_cons]
        omega
    · have head : memSetValueAt m (entry.index j) pid line n =
          if n = start + j then ⟨pid,keptLine line⟩ else m n := by
        unfold memSetValueAt
        rw [place,Function.update_apply]
        rfl
      rw [storeLines,memory,head,List.length_cons]
      by_cases here : n = start + j
      · rw [if_neg (by omega),if_pos here,if_pos (by omega)]
        subst here
        rw [Nat.sub_self]
        rfl
      · rw [if_neg here]
        by_cases inside : start + (j+1) ≤ n ∧ n < start + (j+1) + page.length
        · rw [if_pos inside,if_pos (by omega)]
          have place : n - (start + j) = n - (start + (j+1)) + 1 := by omega
          rw [place,List.getD_cons_succ]
        · rw [if_neg inside,if_neg (by omega)]

/-- A process and its part in the progress. -/
structure RunsAs (text : Text) (s : Progress) (p : Nat) (pcb : PCB) : Prop where
  pid : pcb.pid = p
  size : pcb.size = ((keptLines text).length : Int) - s.done p
  counter : ∀ i < pagesOf (keptLines text).length, pcb.programCounter i = min 3 (s.done p - 3*i)
  table : pcb.pageTableSize = pagesOf (keptLines text).length
  file : lines pcb.sourceFile.rest = (lines text).drop (3*s.loaded p)
  missing : ∀ i, (p,i) ∉ s.resident → ∀ j < 3, (pcb.pageTable i).validBit j = false
  gone : ∀ i < s.loaded p, (p,i) ∉ s.resident → ∀ j < 3, (pcb.pageTable i).index j = 0

/-- The frame of a page holds its lines. -/
structure Framed (lines : List Text) (memory : Memory) (entry : Page) (page : Nat × Nat) (frame : Nat) : Prop where
  index : entry.index = fun j => 3*frame + j
  valid : ∀ j < 3, entry.validBit j = decide (3*page.2 + j < lines.length)
  owner : ∀ j < 3, (memory (3*frame + j)).var = pidText page.1
  value : ∀ j < 3, 3*page.2 + j < lines.length → (memory (3*frame + j)).value = lines.getD (3*page.2 + j) []

def Kernel.entry {W : Type} (k : Kernel W) (page : Nat × Nat) : Page := (k.pcbs page.1).pageTable page.2

/-- The variables and the state of the shell after the lines of a history. -/
def replay {W : Type} (shell : Shell W) (start : Memory × W) : List Event → Memory × W
  | [] => start
  | .executed _ line :: history => (shell line (replay shell start history).1 (replay shell start history).2).2
  | .loaded _ :: history => replay shell start history
  | .evicted _ :: history => replay shell start history

/-- Two memories differ in frames only. -/
structure SameOutside {W : Type} (border : Nat) (left right : Memory × W) : Prop where
  slots : ∀ i, border ≤ i → left.1 i = right.1 i
  world : left.2 = right.2

/-- The kernel holds the progress in its processes, lists and frames; `used` are the frames in use. -/
structure Follows {W : Type} (border : Nat) (shell : Shell W) (start : Memory × W) (texts : Nat → Text) (pids used : Finset Nat) (k : Kernel W) (s : Progress) :
    Prop where
  queue : k.queue = s.queue
  lru : k.lruCache = s.resident
  history : k.history = s.history
  known : ∀ p, p ∈ k.allPcb ↔ p ∈ pids
  runs : ∀ p ∈ pids, RunsAs (texts p) s p (k.pcbs p)
  framed : ∀ page ∈ s.resident, ∃ frame ∈ used,
    Framed (keptLines (texts page.1)) k.memory (k.entry page) page frame
  apart : ∀ x ∈ s.resident, ∀ y ∈ s.resident, (k.entry x).index 0 = (k.entry y).index 0 → x = y
  held : ∀ frame ∈ used, ∃ page ∈ s.resident, (k.entry page).index 0 = 3*frame
  free : ∀ i < border, i/3 ∉ used → (k.memory i).var = noneText
  within : ∀ frame ∈ used, 3*frame + 3 ≤ border
  effects : SameOutside border (k.memory,k.world) (replay shell start s.history)

/-- The commands of a line neither look at the frames nor change them, and their result is not that
of a page fault. -/
structure Quiet {W : Type} (border : Nat) (shell : Shell W) (line : Text) : Prop where
  result : ∀ m world, (shell line m world).1 ≠ 1
  frames : ∀ m world, ∀ i < border, (shell line m world).2.1 i = m i
  blind : ∀ left right : Memory × W, SameOutside border left right →
    SameOutside border (shell line left.1 left.2).2 (shell line right.1 right.2).2

theorem touch_page (page : Nat × Nat) (pages : List (Nat × Nat)) : page :: pages.erase page = touch page pages := by
  unfold touch
  rw [lawful_beq_subsingleton instBEqProd instBEqOfDecidableEq]

theorem find_only {α : Type} {l : List α} {holds : α → Bool} {x : α} (member : x ∈ l) (here : holds x = true)
    (only : ∀ y ∈ l, holds y = true → y = x) : l.find? holds = some x := by
  cases found : l.find? holds with
  | none => exact absurd here (List.find?_eq_none.mp found x member)
  | some y => rw [only y (List.mem_of_find?_eq_some found) (List.find?_some found)]

section
variable {W : Type} {border : Nat} {shell : Shell W} {start : Memory × W} {texts : Nat → Text} {pids used : Finset Nat}
  {k : Kernel W}
  {s : Progress} {p : Nat}

abbrev scripts (texts : Nat → Text) (p : Nat) : List Text := keptLines (texts p)

theorem RunsAs.current {text : Text} {pcb : PCB} (runs : RunsAs text s p pcb)
    (unfinished : s.done p < (keptLines text).length) :
    currentPage pcb = s.done p/3 ∧ s.done p/3 < pcb.pageTableSize ∧ pcb.programCounter (s.done p/3) = s.done p % 3 := by
  have inside : s.done p/3 < pagesOf (keptLines text).length := by
    rw [pagesOf_eq]
    omega
  have here := runs.counter _ inside
  have place : min 3 (s.done p - 3*(s.done p/3)) = s.done p % 3 := by omega
  rw [place] at here
  refine ⟨?_,runs.table ▸ inside,here⟩
  have found : (List.range pcb.pageTableSize).find? (fun i => pcb.programCounter i != pageLines) = some (s.done p/3) := by
    rw [List.find?_range_eq_some,runs.table]
    refine ⟨?_,List.mem_range.mpr inside,fun j before => ?_⟩
    · rw [here,bne_iff_ne]
      exact Nat.ne_of_lt (Nat.mod_lt _ (by decide))
    · have through := runs.counter j (before.trans inside)
      have full : min 3 (s.done p - 3*j) = 3 := by omega
      rw [full] at through
      rw [through]
      rfl
  unfold currentPage
  rw [found]
  rfl

theorem Framed.congr {lines : List Text} {m m' : Memory} {entry : Page} {page : Nat × Nat} {frame : Nat}
    (framed : Framed lines m entry page frame) (same : ∀ j < 3, m' (3*frame + j) = m (3*frame + j)) :
    Framed lines m' entry page frame where
  index := framed.index
  valid := framed.valid
  owner j inside := by
    rw [same j inside]
    exact framed.owner j inside
  value j inside here := by
    rw [same j inside]
    exact framed.value j inside here

theorem update_pageTable (pcbs : Nat → PCB) (p q : Nat) (pcb : PCB) (same : pcb.pageTable = (pcbs p).pageTable) :
    (Function.update pcbs p pcb q).pageTable = (pcbs q).pageTable := by
  rcases eq_or_ne q p with rfl | other
  · rw [Function.update_self,same]
  · rw [Function.update_of_ne other]

/-- A run of the line at the program counter: the shell has it, the counters move, its page is used. -/
theorem Follows.execute {frames : Nat} (follows : Follows border shell start texts pids used k s)
    (sound : Sound frames (scripts texts) pids s) (member : p ∈ pids) (unfinished : s.done p < (scripts texts p).length)
    (here : s.done p/3 < s.loaded p) (quiet : ∀ line ∈ scripts texts p, Quiet border shell line) :
    ∃ k', runCurrent border shell k p = some (false,k') ∧
      Follows border shell start texts pids used k' (useLine (scripts texts) s p) := by
  have runs := follows.runs p member
  obtain ⟨current,inside,counter⟩ := runs.current unfinished
  have resident := sound.page_resident member unfinished here
  obtain ⟨frame,ours,framed⟩ := follows.framed _ resident
  have small : s.done p % 3 < 3 := Nat.mod_lt _ (by decide)
  have place : 3*(s.done p/3) + s.done p % 3 = s.done p := Nat.div_add_mod _ _
  have valid : ((k.pcbs p).pageTable (s.done p/3)).validBit (s.done p % 3) = true := by
    have here := framed.valid _ small
    simp only [place] at here
    exact here.trans (decide_eq_true unfinished)
  have value : (k.memory (((k.pcbs p).pageTable (s.done p/3)).index (s.done p % 3))).value =
      (scripts texts p).getD (s.done p) [] := by
    have index : ((k.pcbs p).pageTable (s.done p/3)).index (s.done p % 3) = 3*frame + s.done p % 3 :=
      congrFun framed.index _
    have here := framed.value _ small
    simp only [place] at here
    rw [index]
    exact here unfinished
  generalize text : (scripts texts p).getD (s.done p) [] = line at value
  have listed : line ∈ scripts texts p := by
    rw [← text,List.getD_eq_getElem _ _ unfinished]
    exact List.getElem_mem _
  have result := (quiet line listed).result k.memory k.world
  have confined := (quiet line listed).frames k.memory k.world
  let k1 : Kernel W := {k with
    memory := (shell line k.memory k.world).2.1
    world := (shell line k.memory k.world).2.2
    pcbs := Function.update k.pcbs p {k.pcbs p with
      programCounter := Function.update (k.pcbs p).programCounter (s.done p/3) (s.done p % 3 + 1)
      size := (k.pcbs p).size - 1}
    history := .executed (p,s.done p/3) line :: k.history}
  have table (q : Nat) : (k1.pcbs q).pageTable = (k.pcbs q).pageTable := update_pageTable k.pcbs p q _ rfl
  have entries (page : Nat × Nat) : k1.entry page = k.entry page := congrFun (table page.1) page.2
  have again : useAgain k1 p (s.done p/3) = some {k1 with lruCache := touch (p,s.done p/3) k.lruCache} := by
    have found : k1.lruCache.find? (fun q => ((k1.pcbs q.1).pageTable q.2).index 0 ==
        ((k1.pcbs p).pageTable (s.done p/3)).index 0) = some (p,s.done p/3) := by
      refine find_only (follows.lru ▸ resident) (beq_self_eq_true _) fun other listed same => ?_
      have listed : other ∈ s.resident := follows.lru ▸ listed
      rw [table,table,beq_iff_eq] at same
      exact follows.apart other listed _ resident same
    unfold useAgain
    rw [found]
    exact congrArg (fun cache => some {k1 with lruCache := cache}) (touch_page _ _)
  have run : cpuRun shell k p (s.done p/3) (s.done p % 3) = ((shell line k.memory k.world).1,k1) := by
    unfold cpuRun
    simp only [valid,value,counter,if_true]
    rfl
  refine ⟨{k1 with lruCache := touch (p,s.done p/3) k.lruCache},?_,?_⟩
  · unfold runCurrent
    simp only [current,counter]
    rw [if_pos ⟨inside,small⟩,runProc]
    simp only [counter,run]
    rw [if_neg result,again]
    rfl
  · have others : ∀ page ∈ touch (p,s.done p/3) s.resident, page ∈ s.resident := by
      intro page inside
      exact ((mem_touch _ _).mp inside).elim (fun same => same ▸ resident) id
    constructor
    · exact follows.queue
    · exact congrArg (touch _) follows.lru
    · exact (congrArg (Event.executed (p,s.done p/3) · :: k.history) text.symm).trans (congrArg (_ :: ·) follows.history)
    · exact follows.known
    · intro q queued
      have before := follows.runs q queued
      have absent (i : Nat) (out : (q,i) ∉ touch (p,s.done p/3) s.resident) : (q,i) ∉ s.resident := fun old =>
        out ((mem_touch _ _).mpr (Or.inr old))
      rcases eq_or_ne q p with rfl | other
      · have self : k1.pcbs q = {k.pcbs q with
            programCounter := Function.update (k.pcbs q).programCounter (s.done q/3) (s.done q % 3 + 1)
            size := (k.pcbs q).size - 1} := Function.update_self ..
        have progress : (useLine (scripts texts) s q).done q = s.done q + 1 := Function.update_self ..
        have process : RunsAs (texts q) (useLine (scripts texts) s q) q (k1.pcbs q) := by
          rw [self]
          constructor
          · exact before.pid
          · simp only [progress,before.size]
            omega
          · intro i within
            rw [progress]
            rcases eq_or_ne i (s.done q/3) with rfl | apart
            · simp only [Function.update_self]
              omega
            · simp only [Function.update_of_ne apart,before.counter i within]
              omega
          · exact before.table
          · exact before.file
          · exact fun i out => before.missing i (absent i out)
          · exact fun i below out => before.gone i below (absent i out)
        exact process
      · have self : k1.pcbs q = k.pcbs q := Function.update_of_ne other ..
        have progress : (useLine (scripts texts) s p).done q = s.done q := Function.update_of_ne other ..
        have process : RunsAs (texts q) (useLine (scripts texts) s p) q (k1.pcbs q) := by
          rw [self]
          constructor
          · exact before.pid
          · rw [progress]
            exact before.size
          · rw [progress]
            exact before.counter
          · exact before.table
          · exact before.file
          · exact fun i out => before.missing i (absent i out)
          · exact fun i below out => before.gone i below (absent i out)
        exact process
    · intro page inside
      obtain ⟨frame,ours,framed⟩ := follows.framed page (others page inside)
      have kept : Framed (keptLines (texts page.1)) (shell line k.memory k.world).2.1 (k1.entry page) page frame := by
        rw [entries]
        refine framed.congr fun j less => confined _ ?_
        have below := follows.within frame ours
        omega
      exact ⟨frame,ours,kept⟩
    · intro x left y right same
      refine follows.apart x (others x left) y (others y right) ?_
      rw [← entries,← entries]
      exact same
    · intro frame ours
      obtain ⟨page,inside,first⟩ := follows.held frame ours
      exact ⟨page,(mem_touch _ _).mpr (Or.inr inside),(congrArg (Page.index · 0) (entries page)).trans first⟩
    · intro i below unused
      have same : (shell line k.memory k.world).2.1 i = k.memory i := confined i below
      exact (congrArg Slot.var same).trans (follows.free i below unused)
    · exact follows.within
    · have after := (quiet line listed).blind _ _ follows.effects
      have same : replay shell start (useLine (scripts texts) s p).history = (shell line
          (replay shell start s.history).1 (replay shell start s.history).2).2 := by
        rw [← text]
        rfl
      rw [same]
      exact after

end
end MyShell.Demand
