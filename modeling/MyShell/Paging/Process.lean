import MyShell.Lib.Interleaving
import MyShell.Paging.Resume

/-! A process none of whose pages was evicted: its pages are in frames that ascend, and its program counter points to
its next line or behind the last line of the page before. -/
namespace MyShell.Paging
open TextFile

/-- A script that is loaded page by page to its end. -/
structure Loads (z : Sizes) (text : Text) : Prop where
  filled : lines text ≠ []
  few : (lines text).length ≤ frameSize*pageTableSize
  short : ∀ line ∈ lines text, line.length+1 < z.shellMemLength ∧ '\x00' ∉ line ∧ line ≠ noneText
  unended : ∀ line, (lines text).getLast? = some line → '\n' ∉ line

section
variable {z : Sizes} {text : Text} {fp : TextFile} {k : Kernel} {page i : Nat}

/-- Only the last line of a text can lack its newline. -/
theorem newline_mem_getElem (text : Text) (line : Text) (i : Nat) (here : (lines text)[i]? = some line)
    (goesOn : i+1 < (lines text).length) : '\n' ∈ line := by
  have split : lines (text.drop (lineStart text i)) = line :: (lines text).drop (i+1) := by
    rw [lines_drop_lineStart]
    exact (List.drop_eq_getElem?_toList_append).trans (by rw [here]; rfl)
  refine newline_mem_line _ line _ split fun empty => ?_
  have length := congrArg List.length empty
  rw [List.length_drop,List.length_nil] at length
  omega

/-- The file stands at the start of the page. -/
structure AtPage (text : Text) (page : Nat) (fp : TextFile) : Prop where
  file : fp.text = text
  position : fp.position = lineStart text (frameSize*page)
  eof : fp.eof = decide ((lines text).length ≤ frameSize*page)

theorem AtPage.lines_rest (here : AtPage text page fp) : lines fp.rest = (lines text).drop (frameSize*page) := by
  rw [rest,here.file,here.position,lines_drop_lineStart]

theorem AtPage.nextPage_eq (here : AtPage text page fp) : nextPage fp = scriptPage text page := by
  rw [nextPage,here.lines_rest]
  rfl

/-- There is a page to load. -/
theorem AtPage.goesOn (here : AtPage text page fp) (more : frameSize*page < (lines text).length) :
    fp.eof = false ∧ fp.rest ≠ [] := by
  refine ⟨?_,fun empty => ?_⟩
  · rw [here.eof,decide_eq_false (Nat.not_le.mpr more)]
  · have length := congrArg List.length here.lines_rest
    rw [empty,List.length_drop] at length
    change 0 = _ at length
    omega

theorem AtPage.wholePage (here : AtPage text page fp) (loads : Loads z text) : WholePage z fp := by
  refine ⟨fun line member => ?_,?_⟩
  · rw [here.nextPage_eq] at member
    have listed := List.mem_of_mem_drop (List.mem_of_mem_take member)
    obtain ⟨fits,plain,-⟩ := loads.short line listed
    exact ⟨by omega,plain⟩
  · refine Or.inr fun line last => ?_
    rw [here.lines_rest,List.getLast?_drop] at last
    split at last
    · exact absurd last.symm (Option.some_ne_none _)
    · exact ⟨loads.unended line last,(loads.short line (List.mem_of_getLast? last)).1⟩

/-- A load tells the end of the file exactly when it has read the last line. -/
theorem AtPage.load_eof (here : AtPage text page fp) (loads : Loads z text) (more : frameSize*page < (lines text).length)
    (filename : Text) (table : PageTable) (pageNum : Nat) (room : i+frameSize ≤ z.threshold) :
    (loadLines z filename i pageNum (z.threshold+1-i) i ⟨k,fp,table,21⟩).fp.eof =
      decide ((lines text).length ≤ frameSize*(page+1)) := by
  obtain ⟨goesOn,-⟩ := here.goesOn more
  have whole := here.wholePage loads
  have content := here.nextPage_eq
  have length : (nextPage fp).length = min frameSize ((lines text).length-frameSize*page) := by
    rw [nextPage,here.lines_rest,List.length_take,List.length_drop]
  have split : lines fp.rest = nextPage fp ++ (lines fp.rest).drop frameSize := (List.take_append_drop _ _).symm
  obtain ⟨left,count⟩ : ∃ left, z.threshold+1-i = left+1+(nextPage fp).length :=
    ⟨z.threshold-i-(nextPage fp).length,by omega⟩
  have taken := loadLines_page z filename i pageNum (nextPage fp) _ (left+1) i ⟨k,fp,table,21⟩ goesOn le_rfl
    (by omega) (by omega) split fun other member => (whole.short other member).1
  have positive : nextPage fp ≠ [] := List.ne_nil_of_length_pos (by simp only [frameSize] at length more ⊢; omega)
  have last := List.getLast?_eq_some_getLast positive
  have place : (lines text)[frameSize*page+((nextPage fp).length-1)]? = some ((nextPage fp).getLast positive) := by
    have small : (nextPage fp).length-1 < frameSize := by simp only [frameSize] at length more ⊢; omega
    have index : (nextPage fp)[(nextPage fp).length-1]? = (scriptPage text page)[(nextPage fp).length-1]? := by rw [content]
    rw [← last,List.getLast?_eq_getElem?,index,scriptPage,List.getElem?_take_of_lt small,List.getElem?_drop]
  have ended := storeLines_eof z filename i pageNum (nextPage fp) _ i ⟨k,fp,table,21⟩ last
  generalize (nextPage fp).getLast positive = line at last place ended
  obtain ⟨fits,-,-⟩ := loads.short line (List.mem_of_getElem? place)
  have room : decide (line.length < z.shellMemLength-1) = true := decide_eq_true (by omega)
  have mark : (storeLines z filename i pageNum i (nextPage fp) ⟨k,fp,table,21⟩).fp.eof =
      decide ((lines text).length ≤ frameSize*(page+1)) := by
    rw [ended,room,Bool.true_and]
    by_cases final : (lines text).length ≤ frameSize*(page+1)
    · have index : frameSize*page+((nextPage fp).length-1) = (lines text).length-1 := by
        simp only [frameSize] at length final more ⊢
        omega
      rw [index,← List.getLast?_eq_getElem?] at place
      rw [decide_eq_true final,decide_eq_true (loads.unended line place)]
    · have newline := newline_mem_getElem text line _ place (by simp only [frameSize] at length final ⊢; omega)
      rw [decide_eq_false final,decide_eq_false (not_not_intro newline)]
  rw [count,taken]
  by_cases full : (nextPage fp).length = frameSize
  · rw [full,loadLines_full]
    exact mark
  · have final : (lines text).length ≤ frameSize*(page+1) := by
      simp only [frameSize] at length full ⊢
      omega
    rw [loadLines_ended z filename i pageNum left _ _ (mark.trans (decide_eq_true final))]
    exact mark

end

/-- The first frames are taken, and every slot behind them is free. -/
structure Occupied (z : Sizes) (used : Nat) (k : Kernel) : Prop where
  within : used ≤ z.frameStoreSize
  taken : ∀ j < used*frameSize, ¬IsHole k j
  free : ∀ j, used*frameSize ≤ j → j < z.threshold → IsHole k j

/-- What a load of the page leaves that finds a free frame. -/
structure NextLoaded (z : Sizes) (used : Nat) (text : Text) (page : Nat) (k : Kernel) (table : PageTable) (l : Loading) :
    Prop where
  errorCode : l.errorCode = 0
  occupied : Occupied z (used+1) l.kernel
  slots : ∀ m < frameSize, (l.kernel.shellmemory (used*frameSize+m)).value = (scriptPage text page).getD m noneText
  others : ∀ j, j / frameSize ≠ used → l.kernel.shellmemory j = k.shellmemory j
  file : AtPage text (page+1) l.fp
  pageTable : l.pageTable = Function.update table page (used : Int)
  ready : l.kernel.ready = k.ready

section
variable {z : Sizes} {used page : Nat} {k : Kernel} {text filename : Text} {fp : TextFile} {table : PageTable}

theorem Occupied.room (occupied : Occupied z used k) : used*frameSize ≤ z.threshold :=
  (Nat.mul_le_mul_right _ occupied.within).trans (Nat.div_mul_le_self _ _)

theorem frame_room (room : used < z.frameStoreSize) : used*frameSize+frameSize ≤ z.threshold := by
  rw [← Nat.succ_mul]
  exact (Nat.mul_le_mul_right _ room).trans (Nat.div_mul_le_self _ _)

theorem Occupied.firstHole (occupied : Occupied z used k) (room : used < z.frameStoreSize) :
    firstHole z k = some (used*frameSize) := by
  have inside := frame_room room
  have below : used*frameSize < z.threshold := by
    simp only [frameSize] at inside ⊢
    omega
  refine List.find?_range_eq_some.mpr ⟨?_,List.mem_range.mpr below,fun j before => ?_⟩
  · exact beq_iff_eq.mpr (occupied.free _ le_rfl below)
  · rw [Bool.not_eq_true',beq_eq_false_iff_ne]
    exact occupied.taken j before

theorem Occupied.congr {k' : Kernel} (occupied : Occupied z used k)
    (same : ∀ j < z.threshold, (k'.shellmemory j).var = (k.shellmemory j).var) : Occupied z used k' := by
  refine ⟨occupied.within,fun j before hole => ?_,fun j behind below => ?_⟩
  · rw [IsHole,same j (before.trans_le occupied.room)] at hole
    exact occupied.taken j before hole
  · rw [IsHole,same j below]
    exact occupied.free j behind below

theorem Occupied.load (occupied : Occupied z used k) (room : used < z.frameStoreSize) (here : AtPage text page fp)
    (loads : Loads z text) (more : frameSize*page < (lines text).length) (named : filename ≠ noneText)
    (table : PageTable) : NextLoaded z used text page k table (loadPageIntoFrameStore z k fp filename table page) := by
  have inside := frame_room room
  obtain ⟨goesOn,rest⟩ := here.goesOn more
  have entry : page < pageTableSize := by
    have few := loads.few
    simp only [frameSize,pageTableSize] at more few ⊢
    omega
  have loaded := loadLines_whole z filename (used*frameSize) page k fp table goesOn inside (here.wholePage loads) rest
  have mark := here.load_eof loads more filename table page (k := k) inside
  have call : loadPageIntoFrameStore z k fp filename table page =
      loadLines z filename (used*frameSize) page (z.threshold+1-used*frameSize) (used*frameSize) ⟨k,fp,table,21⟩ := by
    simp only [loadPageIntoFrameStore,choosePlace,occupied.firstHole room]
  rw [call]
  generalize loadLines z filename (used*frameSize) page (z.threshold+1-used*frameSize) (used*frameSize)
    ⟨k,fp,table,21⟩ = l at loaded mark
  have others : ∀ j, j / frameSize ≠ used → l.kernel.shellmemory j = k.shellmemory j := by
    rw [loaded.kernel]
    exact fillFrame_outside k used filename _
  have var (m : Nat) (small : m < frameSize) : (l.kernel.shellmemory (used*frameSize+m)).var = filename := by
    rw [loaded.kernel]
    exact fillFrame_var k _ m filename _ small
  refine ⟨loaded.errorCode,⟨room,fun j before hole => ?_,fun j behind below => ?_⟩,fun m small => ?_,others,?_,?_,?_⟩
  · by_cases mine : j / frameSize = used
    · obtain ⟨m,small,rfl⟩ : ∃ m < frameSize, j = used*frameSize+m :=
        ⟨j % frameSize,Nat.mod_lt j (by decide),by rw [← mine]; exact (Nat.div_add_mod' j frameSize).symm⟩
      rw [IsHole,var m small] at hole
      exact named hole
    · rw [IsHole,others j mine] at hole
      refine occupied.taken j ?_ hole
      simp only [frameSize] at before mine ⊢
      omega
  · have mine : j / frameSize ≠ used := by
      simp only [frameSize] at behind ⊢
      omega
    rw [IsHole,others j mine]
    refine occupied.free j ?_ below
    simp only [frameSize] at behind ⊢
    omega
  · rw [(loaded.slot m small).2,here.nextPage_eq]
  · obtain ⟨eof,file⟩ := loaded.fp
    rw [here.nextPage_eq] at file
    refine ⟨?_,?_,mark⟩
    · rw [file]
      exact here.file
    · rw [file]
      exact (congrArg (· + _) here.position).trans (lineStart_page text page)
  · rw [loaded.pageTable,if_pos entry,Nat.mul_div_cancel _ (by decide)]
  · rw [loaded.kernel]
    rfl

end
/-- How far a process has come: the frames of its pages, and how many of its lines it has executed. -/
structure Process where
  pid : Nat
  frames : List Nat
  next : Nat

namespace Process
variable (text name : Nat → Text) (p : Process)

def frame (n : Nat) : Nat := p.frames.getD n 0

/-- The page of the line executed last. -/
def page : Nat := (p.next-1) / frameSize

structure Sound (used : Nat) : Prop where
  ascending : ∀ i j, i < j → j < p.frames.length → p.frame i < p.frame j
  below : ∀ i < p.frames.length, p.frame i < used
  reached : p.next ≤ frameSize*p.frames.length
  within : p.next ≤ (lines (text p.pid)).length
  needed : frameSize*(p.frames.length-1) < (lines (text p.pid)).length

structure Stored (k : Kernel) : Prop where
  slots : ∀ n < p.frames.length, ∀ m < frameSize,
    (k.shellmemory (p.frame n*frameSize+m)).value = (scriptPage (text p.pid) n).getD m noneText

/-- What the process control block holds, apart from the program counter. -/
structure Block (pcb : PCB) : Prop where
  file : AtPage (text p.pid) p.frames.length pcb.fp
  filename : pcb.filename = name p.pid
  entry : ∀ n < p.frames.length, pcb.pageTable n = p.frame n
  missing : ∀ n, p.frames.length ≤ n → pcb.pageTable n = -1

/-- The program counter points behind the line executed last. -/
structure Runs (pcb : PCB) : Prop extends Block text name p pcb where
  started : 0 < p.frames.length
  pc : pcb.pc = p.frame p.page*frameSize+(p.next-p.page*frameSize : Nat)

/-- The program counter points to the next line. -/
structure Turned (pcb : PCB) : Prop extends Block text name p pcb where
  resident : p.next / frameSize < p.frames.length
  pc : pcb.pc = p.frame (p.next / frameSize)*frameSize+(p.next % frameSize : Nat)

/-- The process after a load of its next page. -/
def loaded (used : Nat) : Process := {p with frames := p.frames ++ [used]}

theorem loaded_before (used n : Nat) (inside : n < p.frames.length) : (p.loaded used).frame n = p.frame n :=
  List.getD_append _ _ _ _ inside

theorem loaded_last (used : Nat) : (p.loaded used).frame p.frames.length = used := by
  rw [frame,loaded,List.getD_append_right _ _ _ _ le_rfl,Nat.sub_self]
  rfl

theorem loaded_length (used : Nat) : (p.loaded used).frames.length = p.frames.length+1 := List.length_append

end Process

section
variable {z : Sizes} {scripts : Text → Option Text} {text name : Nat → Text} {used : Nat} {p : Process} {pcb : PCB}
  {m : Machine}

theorem Process.Runs.page_lt (runs : p.Runs text name pcb) (sound : p.Sound text used) : p.page < p.frames.length := by
  have started := runs.started
  have reached := sound.reached
  unfold Process.page
  simp only [frameSize] at reached ⊢
  omega

theorem Process.Sound.pages (sound : p.Sound text used) (loads : Loads z (text p.pid)) : p.frames.length ≤ pageTableSize := by
  have needed := sound.needed
  have few := loads.few
  simp only [frameSize,pageTableSize] at needed few ⊢
  omega

/-- The search for the program counter ends at the page of the line executed last: the frames of the earlier pages
end before it. -/
theorem Process.Runs.findPage_eq (runs : p.Runs text name pcb) (sound : p.Sound text used) (loads : Loads z (text p.pid)) :
    findPage pcb = some p.page := by
  have inside := runs.page_lt sound
  have pages := sound.pages loads
  have here := runs.entry p.page inside
  have pc := runs.pc
  have offset : p.next-p.page*frameSize ≤ frameSize ∧ (0 < p.page → 0 < p.next-p.page*frameSize) := by
    unfold Process.page
    simp only [frameSize]
    omega
  refine List.find?_range_eq_some.mpr ⟨?_,List.mem_range.mpr (by omega),fun n before => ?_⟩
  · rw [Bool.or_eq_true,Bool.and_eq_true,Bool.and_eq_true]
    refine Or.inr ⟨⟨decide_eq_true ?_,decide_eq_true ?_⟩,decide_eq_true ?_⟩
    · rw [here]
      omega
    · rw [here,pc]
      omega
    · have within := offset.1
      rw [here,pc]
      omega
  · have earlier := runs.entry n (by omega)
    have lower := sound.ascending n p.page before inside
    have positive := offset.2 (by omega)
    rw [Bool.not_eq_true',Bool.or_eq_false_iff]
    refine ⟨decide_eq_false ?_,Bool.and_eq_false_iff.mpr (Or.inr (decide_eq_false ?_))⟩
    · rw [earlier,pc]
      simp only [frameSize] at positive ⊢
      omega
    · rw [earlier,pc]
      simp only [frameSize] at positive ⊢
      omega

theorem locate_running (runs : p.Runs text name pcb) (sound : p.Sound text used) (loads : Loads z (text p.pid))
    (rounds : Nat) : locate z (rounds+1) m pcb = (.ready,p.page,m,pcb) := by
  rw [locate,runs.findPage_eq sound loads]

/-- Within a page, and at the start, no page is turned. -/
theorem Process.Runs.stays (runs : p.Runs text name pcb) (sound : p.Sound text used)
    (inside : p.next = 0 ∨ p.next % frameSize ≠ 0) :
    turnPage z m pcb p.page = (.ready,p.next / frameSize,m,pcb) ∧ p.Turned text name pcb := by
  have here := runs.entry p.page (runs.page_lt sound)
  have pc := runs.pc
  have same : p.page = p.next / frameSize := by
    unfold Process.page
    simp only [frameSize] at inside ⊢
    omega
  have offset : p.next-p.page*frameSize = p.next % frameSize := by
    rw [same]
    simp only [frameSize]
    omega
  have stay : ¬(pcb.pc % (frameSize : Int) = 0 ∧ pcb.pc ≠ pcb.pageTable p.page*frameSize) := by
    rintro ⟨whole,other⟩
    rw [here] at other
    rw [pc,offset] at whole other
    simp only [frameSize] at inside whole other
    omega
  refine ⟨?_,runs.toBlock,same ▸ (runs.page_lt sound),?_⟩
  · rw [turnPage,if_neg stay,same]
  · rw [pc,offset,same]

/-- Behind the last line of a page the next page is turned to, which is in its frame. -/
theorem Process.Runs.turns (runs : p.Runs text name pcb) (sound : p.Sound text used) (loads : Loads z (text p.pid))
    (bound : used ≤ z.frameStoreSize) (some : p.next ≠ 0) (whole : p.next % frameSize = 0)
    (resident : p.next / frameSize < p.frames.length) :
    ∃ pcb', turnPage z m pcb p.page = (.ready,p.next / frameSize,m,pcb') ∧ p.Turned text name pcb' := by
  have here := runs.entry p.page (runs.page_lt sound)
  have pc := runs.pc
  have pages := sound.pages loads
  have same : p.page+1 = p.next / frameSize := by
    unfold Process.page
    simp only [frameSize] at whole ⊢
    omega
  have offset : p.next-p.page*frameSize = frameSize := by
    unfold Process.page
    simp only [frameSize] at whole ⊢
    omega
  have next := runs.entry (p.page+1) (by omega)
  have below := sound.below (p.page+1) (by omega)
  have leaves : pcb.pc % (frameSize : Int) = 0 ∧ pcb.pc ≠ pcb.pageTable p.page*frameSize := by
    rw [here,pc,offset]
    simp only [frameSize]
    omega
  refine ⟨{pcb with pc := pcb.pageTable (p.page+1)*frameSize},?_,⟨runs.file,runs.filename,runs.entry,runs.missing⟩,
    resident,?_⟩
  · rw [turnPage,if_pos leaves,if_pos ⟨by omega,by rw [next]; omega,by rw [next]; omega⟩,same]
  · change pcb.pageTable (p.page+1)*frameSize = _
    rw [next,same,whole]
    simp only [Int.natCast_zero,Int.add_zero]

/-- What a load leaves of the machine when it puts the page into the frame `used`. -/
structure Grown (z : Sizes) (used : Nat) (text : Text) (page : Nat) (m m' : Machine) : Prop where
  occupied : Occupied z (used+1) m'.kernel
  slots : ∀ n < frameSize, (m'.kernel.shellmemory (used*frameSize+n)).value = (scriptPage text page).getD n noneText
  others : ∀ j, j / frameSize ≠ used → m'.kernel.shellmemory j = m.kernel.shellmemory j
  ready : m'.kernel.ready = m.kernel.ready
  history : m'.history = .loaded (used*frameSize) :: m.history

theorem loadPage_grown {text : Text} {fp : TextFile} {page : Nat} (filename : Text) (table : PageTable)
    (occupied : Occupied z used m.kernel) (room : used < z.frameStoreSize) (here : AtPage text page fp)
    (loads : Loads z text) (more : frameSize*page < (lines text).length) (named : filename ≠ noneText) :
    ∃ m' fp', loadPage z m fp filename table page = (0,m',fp',Function.update table page (used : Int)) ∧
      AtPage text (page+1) fp' ∧ Grown z used text page m m' := by
  have next := occupied.load room here loads more named table
  have hole := occupied.firstHole room
  have place : choosePlace z m.kernel fp table = (used*frameSize,m.kernel,table) := by
    rw [choosePlace,hole]
  have picks : ¬(firstHole z m.kernel = none ∧ fp.eof = false) := by
    rw [hole]
    exact fun both => Option.some_ne_none _ both.1
  simp only [loadPage,if_neg picks,next.errorCode,if_true,place,next.pageTable,List.singleton_append]
  exact ⟨_,_,rfl,next.file,next.occupied,next.slots,next.others,next.ready,rfl⟩

/-- The process control block after a load. -/
theorem Process.Block.loaded {fp : TextFile} (block : p.Block text name pcb) (used : Nat)
    (file : AtPage (text p.pid) (p.frames.length+1) fp) : (p.loaded used).Block text name
      {pcb with pageTable := Function.update pcb.pageTable p.frames.length (used : Int), fp := fp} := by
  refine ⟨?_,block.filename,fun n inside => ?_,fun n behind => ?_⟩
  · rw [p.loaded_length]
    exact file
  · rw [p.loaded_length] at inside
    obtain inside | rfl := Nat.lt_succ_iff_lt_or_eq.mp inside
    · rw [p.loaded_before used n inside]
      exact (Function.update_of_ne (Nat.ne_of_lt inside) _ _).trans (block.entry n inside)
    · rw [p.loaded_last]
      exact Function.update_self _ _ _
  · rw [p.loaded_length] at behind
    exact (Function.update_of_ne (by omega) _ _).trans (block.missing n (by omega))

/-- A process that was just started. -/
theorem Process.Block.runs (block : p.Block text name pcb) (started : 0 < p.frames.length) (first : p.next = 0)
    (pc : pcb.pc = pcb.pageTable 0*frameSize) : p.Runs text name pcb := by
  have page : p.page = 0 := by
    unfold Process.page
    rw [first]
    rfl
  refine ⟨block,started,?_⟩
  rw [pc,block.entry 0 started,page,first]
  simp only [Nat.zero_mul,Nat.sub_self,Int.natCast_zero,Int.add_zero]

theorem loadPage_eof (z : Sizes) (m : Machine) (fp : TextFile) (filename : Text) (table : PageTable) (page : Nat)
    (eof : fp.eof = true) : loadPage z m fp filename table page = (21,m,fp,table) := by
  have failed := loadPage_ended z m.kernel fp filename table page eof
  simp only [loadPage,failed,eof,Bool.true_eq_false,and_false,if_false,Nat.succ_ne_zero,List.nil_append]

/-- Behind the last page that was loaded the next one goes to a free frame, and the head of the ready queue to its
tail. -/
theorem Process.Runs.faults (runs : p.Runs text name pcb) (sound : p.Sound text used) (loads : Loads z (text p.pid))
    (named : name p.pid ≠ noneText) (occupied : Occupied z used m.kernel) (room : used < z.frameStoreSize)
    (whole : p.next = frameSize*p.frames.length) (more : p.next < (lines (text p.pid)).length) :
    ∃ m' pcb', turnPage z m pcb p.page = (.ready,p.next / frameSize,m',pcb') ∧
      (p.loaded used).Turned text name pcb' ∧
      Grown z used (text p.pid) p.frames.length (interrupt m) m' := by
  have here := runs.entry p.page (runs.page_lt sound)
  have pc := runs.pc
  have started := runs.started
  have few := loads.few
  have same : p.page+1 = p.frames.length := by
    unfold Process.page
    rw [whole]
    simp only [frameSize]
    omega
  have offset : p.next-p.page*frameSize = frameSize := by
    rw [whole,← same]
    simp only [frameSize]
    omega
  have missing := runs.missing (p.page+1) (by omega)
  have leaves : pcb.pc % (frameSize : Int) = 0 ∧ pcb.pc ≠ pcb.pageTable p.page*frameSize := by
    rw [here,pc,offset]
    simp only [frameSize]
    omega
  have entry : p.page+1 < pageTableSize := by
    simp only [frameSize,pageTableSize] at whole few ⊢
    omega
  have free : Occupied z used (interrupt m).kernel := by
    refine occupied.congr fun j _ => ?_
    unfold interrupt
    split <;> rfl
  obtain ⟨m',fp',loaded,file,grown⟩ := loadPage_grown pcb.filename pcb.pageTable free room (same ▸ runs.file) loads (by rw [same,← whole]; exact more)
    (by rw [runs.filename]; exact named)
  have quotient : p.next / frameSize = p.page+1 := by
    rw [whole,Nat.mul_div_cancel_left _ (by decide),same]
  refine ⟨m',⟨(used : Int)*frameSize,Function.update pcb.pageTable (p.page+1) (used : Int),fp',pcb.filename⟩,?_,?_,
    same ▸ grown⟩
  · rw [turnPage,if_pos leaves,if_neg (by rw [missing]; omega),if_pos ⟨entry,missing⟩,loaded,quotient]
    simp only [if_true,Function.update_self]
  · have length : (p.loaded used).frames.length = p.page+1+1 := by
      rw [Process.loaded,List.length_append,List.length_singleton,same]
    have last : (p.loaded used).frame (p.page+1) = used := same ▸ p.loaded_last used
    have block := runs.toBlock.loaded used (same ▸ file)
    rw [← same] at block
    refine ⟨⟨block.file,block.filename,block.entry,block.missing⟩,?_,?_⟩
    · change p.next / frameSize < _
      rw [length,quotient]
      exact Nat.lt_succ_self _
    · change (used : Int)*frameSize = ((p.loaded used).frame (p.next / frameSize))*frameSize+(p.next % frameSize : Nat)
      rw [quotient,last,whole,Nat.mul_mod_right]
      simp only [Int.natCast_zero,Int.add_zero]

/-- Behind a last page that is full the process ends. -/
theorem Process.Runs.ends (runs : p.Runs text name pcb) (sound : p.Sound text used)
    (whole : p.next = frameSize*p.frames.length) (done : p.next = (lines (text p.pid)).length) :
    ∃ pageNum m' pcb', turnPage z m pcb p.page = (.terminated,pageNum,m',pcb') ∧ (m' = m ∨ m' = interrupt m) := by
  have here := runs.entry p.page (runs.page_lt sound)
  have pc := runs.pc
  have started := runs.started
  have same : p.page+1 = p.frames.length := by
    unfold Process.page
    rw [whole]
    simp only [frameSize]
    omega
  have offset : p.next-p.page*frameSize = frameSize := by
    rw [whole,← same]
    simp only [frameSize]
    omega
  have leaves : pcb.pc % (frameSize : Int) = 0 ∧ pcb.pc ≠ pcb.pageTable p.page*frameSize := by
    rw [here,pc,offset]
    simp only [frameSize]
    omega
  have missing := runs.missing (p.page+1) (by omega)
  rw [turnPage,if_pos leaves,if_neg (by rw [missing]; omega)]
  by_cases entry : p.page+1 < pageTableSize
  · have eof : pcb.fp.eof = true := runs.file.eof.trans (decide_eq_true (by rw [← whole,done]))
    rw [if_pos ⟨entry,missing⟩,loadPage_eof z (interrupt m) pcb.fp pcb.filename pcb.pageTable (p.page+1) eof]
    exact ⟨_,_,_,rfl,Or.inr rfl⟩
  · rw [if_neg (fun both => entry both.1)]
    exact ⟨_,_,_,rfl,Or.inl rfl⟩

/-- The slot at the program counter holds the next line, or the padding behind the last one. -/
theorem Process.Turned.slot (turned : p.Turned text name pcb) (sound : p.Sound text used) (stored : p.Stored text m.kernel)
    (bound : used ≤ z.frameStoreSize) :
    memGetValueAtLine z m.kernel pcb.pc = some ((lines (text p.pid)).getD p.next noneText) := by
  have small : p.next % frameSize < frameSize := Nat.mod_lt _ (by decide)
  have below := sound.below _ turned.resident
  have value := stored.slots _ turned.resident _ small
  have index : frameSize*(p.next / frameSize)+p.next % frameSize = p.next := Nat.div_add_mod _ _
  have read := memGetValueAtLine_frame z m.kernel (p.frame (p.next / frameSize)) _ (below.trans_le bound) small
  have pc : pcb.pc = ((p.frame (p.next / frameSize)*frameSize : Nat) : Int)+(p.next % frameSize : Nat) := by
    rw [turned.pc,Int.natCast_mul]
  rw [pc,read,value,List.getD_eq_getElem?_getD,List.getD_eq_getElem?_getD,scriptPage,
    List.getElem?_take_of_lt small,List.getElem?_drop,index]

end
end MyShell.Paging
