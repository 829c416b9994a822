import MyShell.Paging.Recency

/-! A process whose page was evicted. `execute_process` goes back `FRAME_SIZE` bytes in its
file and reloads a page from there, and looks for the old program counter in it. -/
namespace MyShell.Paging
open TextFile

/-- The file from which the page of an evicted process is reloaded. -/
def reloadFile (pcb : PCB) : TextFile := fseek (-3) pcb.fp

/-- The lines of a page of a script. -/
def scriptPage (text : Text) (page : Nat) : List Text := ((lines text).drop (frameSize*page)).take frameSize

/-- The call reloads the page with the line number `next` so that the program counter points to
this line again, runs this line first, and leaves the file at the start of the next page. -/
structure Resumes (z : Sizes) (scripts : Text → Option Text) (quanta : Nat) (m : Machine) (pcb : PCB)
    (next : Nat) (line : Text) : Prop where
  page : (reloadFile pcb).position = lineStart pcb.fp.text (frameSize*(next / frameSize))
  reload : ∃ (f : Nat) (m' : Machine) (pcb' : PCB), locate z 2 m pcb = (.ready,0,m',pcb') ∧
    pcb'.pageTable 0 = f ∧ pcb'.pc = f*frameSize+(next % frameSize : Nat) ∧
    (∀ j < frameSize, (m'.kernel.shellmemory (f*frameSize+j)).value =
      (scriptPage pcb.fp.text (next / frameSize)).getD j noneText) ∧
    pcb'.fp.text = pcb.fp.text ∧
    pcb'.fp.position = lineStart pcb.fp.text (frameSize*(next / frameSize+1)) ∧
    ∃ newer, (executeProcess z scripts 2 quanta m pcb).2.1.history =
      newer ++ .executed pcb.pc line :: m'.history

theorem fseek_text (offset : Int) (file : TextFile) : (fseek offset file).text = file.text := by
  simp only [fseek]
  split <;> rfl

/-- The first line of a page that was loaded starts where the file stood. -/
theorem nextPage_scriptPage (fp : TextFile) (page : Nat) (start : fp.position = lineStart fp.text (frameSize*page)) :
    nextPage fp = scriptPage fp.text page := by
  rw [nextPage,rest,start,lines_drop_lineStart]
  rfl

theorem lineStart_page (text : Text) (page : Nat) :
    lineStart text (frameSize*page)+(scriptPage text page).flatten.length = lineStart text (frameSize*(page+1)) := by
  simp only [lineStart,scriptPage]
  rw [Nat.mul_succ,List.take_add,List.flatten_append,List.length_append]

theorem locate_reload (z : Sizes) (m : Machine) (pcb : PCB) (rounds : Nat) (evicted : findPage pcb = none) :
    locate z (rounds+1) m pcb =
      let (errorCode,m,fp,table) := loadPage z m (reloadFile pcb) pcb.filename emptyTable 0
      if errorCode = 0 then locate z rounds m {pcb with fp := fp, pageTable := table}
      else (.terminated,0,m,{pcb with fp := fp, pageTable := table}) := by
  rw [locate,evicted]
  rfl

theorem findPage_first (pcb : PCB) (f : Nat) (entry : pcb.pageTable 0 = f) (r : Nat) (small : r < frameSize)
    (pc : pcb.pc = f*frameSize+r) : findPage pcb = some 0 := by
  refine List.find?_range_eq_some.mpr ⟨?_,List.mem_range.mpr (by decide),fun _ before => absurd before (Nat.not_lt_zero _)⟩
  rw [Bool.or_eq_true,Bool.and_eq_true,Bool.and_eq_true]
  refine .inr ⟨⟨decide_eq_true ?_,decide_eq_true ?_⟩,decide_eq_true ?_⟩
  · rw [entry]
    omega
  · rw [entry,pc]
    omega
  · rw [entry,pc]
    simp only [frameSize] at small ⊢
    omega

theorem history_grows (z : Sizes) (base : List Event) :
    Preserved z fun m => ∃ newer, m.history = newer ++ base := by
  refine ⟨fun m fp filename table pageNum before => ?_,fun _ _ before => before,fun _ _ _ before => before,
    fun _ before => before,fun m slot line before => ?_,fun _ _ before => before⟩
  · obtain ⟨newer,split⟩ := before
    simp only [loadPage,split,← List.append_assoc]
    exact ⟨_,rfl⟩
  · obtain ⟨newer,split⟩ := before
    exact ⟨.executed slot line :: newer,congrArg _ split⟩

/-- Inside the page the program counter points to, no page is turned. -/
theorem turnPage_inside (z : Sizes) (m : Machine) (pcb : PCB) (f r : Nat) (entry : pcb.pageTable 0 = f)
    (small : r < frameSize) (pc : pcb.pc = f*frameSize+r) : turnPage z m pcb 0 = (.ready,0,m,pcb) := by
  have stays : ¬(pcb.pc % (frameSize : Int) = 0 ∧ pcb.pc ≠ pcb.pageTable 0*frameSize) := by
    rintro ⟨whole,other⟩
    rw [entry,pc] at other
    rw [pc] at whole
    simp only [frameSize] at small whole other
    omega
  rw [turnPage,if_neg stays]

/-- The first line that a call executes stands in its history right after what the search left. -/
theorem executeLines_first (z : Sizes) (scripts : Text → Option Text) (quanta : Nat) (m : Machine) (pcb : PCB)
    (line : Text) (stays : turnPage z m pcb 0 = (.ready,0,m,pcb))
    (here : memGetValueAtLine z m.kernel pcb.pc = some line) (text : line ≠ noneText) :
    ∃ newer, (executeLines z scripts (quanta+1) 0 m pcb).2.1.history =
      newer ++ .executed pcb.pc line :: m.history := by
  have grows := history_grows z (.executed pcb.pc line :: m.history)
  have counted : pcb.pc+1-1 = pcb.pc := Int.add_sub_cancel _ _
  have parsed := grows.parseInput scripts {m with history := .executed pcb.pc line :: m.history} line ⟨[],rfl⟩
  simp only [executeLines,stays,executeLine,here,if_neg text,counted]
  generalize parseInput z scripts {m with history := .executed pcb.pc line :: m.history} line = back at parsed ⊢
  obtain ⟨comes,m'⟩ := back
  cases comes with
  | false => exact parsed
  | true => exact grows.executeLines scripts quanta 0 _ _ (grows.stamp m' pcb.pc parsed)

/-- At a padded line the process ends, and nothing is executed. -/
theorem executeLines_padding (z : Sizes) (scripts : Text → Option Text) (quanta : Nat) (m : Machine) (pcb : PCB)
    (stays : turnPage z m pcb 0 = (.ready,0,m,pcb))
    (here : memGetValueAtLine z m.kernel pcb.pc = some noneText) :
    (executeLines z scripts (quanta+1) 0 m pcb).2.1.history = m.history := by
  simp only [executeLines,stays,executeLine,here,if_true]

/-- The condition under which the reload undoes the process's reads: three bytes before the
file's position stands the start of the page, and the frame chosen for it is the one into
which the program counter points. -/
structure ReloadFits (z : Sizes) (m : Machine) (pcb : PCB) (next : Nat) (line : Text) : Prop where
  start : (reloadFile pcb).position = lineStart pcb.fp.text (frameSize*(next / frameSize))
  goesOn : (reloadFile pcb).eof = false
  frame : ((choosePlace z m.kernel (reloadFile pcb) emptyTable).1 : Int)+(next % frameSize : Nat) = pcb.pc
  text : line ≠ noneText

/-- The page that is reloaded from its start holds the next line. -/
theorem scriptPage_line (text line : Text) (next : Nat) (member : (lines text)[next]? = some line) :
    (scriptPage text (next / frameSize))[next % frameSize]? = some line := by
  have index : frameSize*(next / frameSize)+next % frameSize = next := Nat.div_add_mod next frameSize
  rw [scriptPage,List.getElem?_take_of_lt (Nat.mod_lt next (by decide)),List.getElem?_drop,index]
  exact member

theorem memGetValueAtLine_frame (z : Sizes) (k : Kernel) (f r : Nat) (inside : f < z.frameStoreSize)
    (small : r < frameSize) : memGetValueAtLine z k ((f*frameSize : Nat)+(r : Nat) : Int) =
      some (k.shellmemory (f*frameSize+r)).value := by
  have size : z.frameStoreSize*frameSize ≤ z.threshold := Nat.div_mul_le_self _ _
  have within : f*frameSize+r < z.shellMemLength := by
    simp only [Sizes.shellMemLength,frameSize] at size small ⊢
    omega
  have bounds : ¬(((f*frameSize : Nat)+(r : Nat) : Int) < 0 ∨ (z.shellMemLength : Int) < (f*frameSize : Nat)+(r : Nat)) := by
    omega
  rw [memGetValueAtLine,if_neg bounds]
  rfl

/-- The process after a page load. -/
def PCB.reloaded (pcb : PCB) (l : Loading) : PCB := {pcb with fp := l.fp, pageTable := l.pageTable}

/-- A search that ends without another reload changes nothing. -/
theorem locate_one (z : Sizes) (m m' : Machine) (pcb pcb' : PCB) (pageNum : Nat)
    (ready : locate z 1 m pcb = (.ready,pageNum,m',pcb')) : m' = m ∧ pcb' = pcb := by
  cases found : findPage pcb with
  | some n =>
    rw [locate,found] at ready
    simp only [Prod.mk.injEq,true_and] at ready
    exact ⟨ready.2.1.symm,ready.2.2.symm⟩
  | none =>
    rw [locate_reload z m pcb 0 found] at ready
    simp only [loadPage] at ready
    split at ready <;> exact Outcome.noConfusion (Prod.mk.inj ready).1

/-- A search that ends after one reload ends in the state that the reload left. -/
theorem locate_ready (z : Sizes) (m m' : Machine) (pcb pcb' : PCB) (pageNum : Nat) (evicted : findPage pcb = none)
    (ready : locate z 2 m pcb = (.ready,pageNum,m',pcb')) :
    let l := loadPageIntoFrameStore z m.kernel (reloadFile pcb) pcb.filename emptyTable 0
    l.errorCode = 0 ∧ m'.kernel = l.kernel ∧ pcb' = pcb.reloaded l := by
  rw [locate_reload z m pcb 1 evicted] at ready
  simp only [loadPage] at ready
  split at ready
  · rename_i succeeds
    obtain ⟨rfl,rfl⟩ := locate_one z _ m' _ pcb' pageNum ready
    exact ⟨succeeds,rfl,rfl⟩
  · exact Outcome.noConfusion (Prod.mk.inj ready).1

/-- A reload into the frame of the program counter ends the search. -/
theorem locate_found (z : Sizes) (m : Machine) (pcb : PCB) (f r : Nat) (evicted : findPage pcb = none)
    (small : r < frameSize) (pc : pcb.pc = f*frameSize+r)
    (succeeds : (loadPageIntoFrameStore z m.kernel (reloadFile pcb) pcb.filename emptyTable 0).errorCode = 0)
    (entry : (loadPageIntoFrameStore z m.kernel (reloadFile pcb) pcb.filename emptyTable 0).pageTable 0 = f) :
    ∃ m', m'.kernel = (loadPageIntoFrameStore z m.kernel (reloadFile pcb) pcb.filename emptyTable 0).kernel ∧
      locate z 2 m pcb = (.ready,0,m',
        pcb.reloaded (loadPageIntoFrameStore z m.kernel (reloadFile pcb) pcb.filename emptyTable 0)) := by
  have found := findPage_first (pcb.reloaded (loadPageIntoFrameStore z m.kernel (reloadFile pcb) pcb.filename
    emptyTable 0)) f entry r small pc
  refine ⟨(loadPage z m (reloadFile pcb) pcb.filename emptyTable 0).2.1,rfl,?_⟩
  rw [locate_reload z m pcb 1 evicted]
  simp only [loadPage,succeeds,if_true]
  rw [locate]
  simp only [PCB.reloaded] at found
  simp only [found,PCB.reloaded]

/-- A process at the second of three empty lines: its page is three bytes long. -/
def emptyLines : PCB := ⟨1,emptyTable,⟨['\n','\n','\n'],3,false⟩,['x']⟩

def executedLines (history : List Event) : List Text :=
  history.reverse.filterMap fun
    | .executed _ line => some line
    | _ => none

/-- `p` has two pages of three lines, `q` one line. -/
def sixLines (filename : Text) : Option Text :=
  if filename = ['p'] then some ['a','\n','b','\n','c','\n','d','\n','e','\n','f']
  else if filename = ['q'] then some ['g']
  else none

def sixLoaded : Machine := (processInitialize twoFrames sixLines ⟨started twoFrames,[]⟩ ['p']).2

/-- The load of `q` evicts the first page of `p`, which waits in the ready queue. -/
def sixEvicted : Machine := (processInitialize twoFrames sixLines sixLoaded ['q']).2

def readyHead (m : Machine) : PCB := m.kernel.ready.headD emptyLines

end MyShell.Paging
