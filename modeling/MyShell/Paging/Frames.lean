import MyShell.Paging.PageLoad

/-! The frame store over a whole run: the holes of a frame start at its first slot, so
that every page is loaded into one frame. -/
namespace MyShell.Paging
open TextFile

def IsHole (k : Kernel) (j : Nat) : Prop := (k.shellmemory j).var = noneText

/-- A frame with a hole has one at its first slot; without a whole frame all slots are holes. -/
structure FrameHoles (z : Sizes) (k : Kernel) : Prop where
  first : ∀ f < z.frameStoreSize, ∀ m < frameSize, IsHole k (f*frameSize+m) → IsHole k (f*frameSize)
  bare : z.frameStoreSize = 0 → ∀ j < z.threshold, IsHole k j

/-- A call that can put the next page of `fp` into one frame: the page is read to its end,
and the first hole lies in one of the whole frames. -/
structure Loadable (z : Sizes) (k : Kernel) (fp : TextFile) : Prop where
  page : fp.eof = false → WholePage z fp
  place : fp.eof = false → ∀ i, firstHole z k = some i → i / frameSize < z.frameStoreSize

theorem FrameHoles.congr (z : Sizes) (k k' : Kernel) (holes : FrameHoles z k)
    (same : ∀ j < z.threshold, (k'.shellmemory j).var = (k.shellmemory j).var) : FrameHoles z k' := by
  have size : z.frameStoreSize*frameSize ≤ z.threshold := Nat.div_mul_le_self _ _
  constructor
  · intro f inside m small hole
    have last : f*frameSize+m < z.threshold := by
      simp only [frameSize] at size small ⊢
      omega
    have start : f*frameSize < z.threshold := by omega
    rw [IsHole,same _ start]
    rw [IsHole,same _ last] at hole
    exact holes.first f inside m small hole
  · intro none j below
    rw [IsHole,same j below]
    exact holes.bare none j below

theorem firstHole_some (z : Sizes) (k : Kernel) (i : Nat) (found : firstHole z k = some i) :
    i < z.threshold ∧ IsHole k i ∧ ∀ j < i, ¬IsHole k j := by
  obtain ⟨hole,member,earlier⟩ := List.find?_range_eq_some.mp found
  refine ⟨List.mem_range.mp member,eq_of_beq hole,fun j before other => ?_⟩
  have taken := earlier j before
  rw [beq_iff_eq.mpr (show (k.shellmemory j).var = noneText from other)] at taken
  exact Bool.noConfusion taken

/-- The first hole is the first slot of its frame. -/
theorem firstHole_aligned (z : Sizes) (k : Kernel) (holes : FrameHoles z k) (i : Nat)
    (found : firstHole z k = some i) (inside : i / frameSize < z.frameStoreSize) :
    i / frameSize * frameSize = i := by
  obtain ⟨below,hole,earlier⟩ := firstHole_some z k i found
  have whole := Nat.div_add_mod' i frameSize
  have small : i % frameSize < frameSize := Nat.mod_lt i (by decide)
  have start := holes.first _ inside _ small (by rw [whole]; exact hole)
  refine (Nat.lt_or_eq_of_le (Nat.div_mul_le_self i frameSize)).resolve_left fun before => ?_
  exact earlier _ before start

/-- The scan for the victim ends at the first frame whose first line has the least stamp. -/
theorem victim_scan (stamp : Nat → Nat) (count : Nat) (some_frame : 0 < count) :
    let victim := (List.range count).foldl (fun victim frame => if stamp frame < stamp victim then frame else victim) 0
    victim < count ∧ ∀ frame < count, stamp victim ≤ stamp frame ∧ (frame < victim → stamp victim < stamp frame) := by
  induction count with
  | zero => exact absurd some_frame (lt_irrefl 0)
  | succ count ih =>
    rw [List.range_succ,List.foldl_append,List.foldl_cons,List.foldl_nil]
    cases count with
    | zero => simp
    | succ count =>
      obtain ⟨inside,least⟩ := ih (Nat.succ_pos count)
      refine ⟨?_,fun frame bound => ?_⟩
      · split
        · exact Nat.lt_succ_self _
        · exact Nat.lt_succ_of_lt inside
      · obtain before | rfl := Nat.lt_succ_iff_lt_or_eq.mp bound
        · have older := least frame before
          split <;> omega
        · split <;> omega

theorem victimFrame_lt (z : Sizes) (k : Kernel) (some_frame : 0 < z.frameStoreSize) :
    victimFrame z k < z.frameStoreSize :=
  (victim_scan (fun frame => (k.shellmemory (frame*frameSize)).lastUsed) z.frameStoreSize some_frame).1

/-- Outside one frame two kernels have the same shell memory. -/
def SameOutside (f : Nat) (k k' : Kernel) : Prop :=
  ∀ j, j / frameSize ≠ f → k'.shellmemory j = k.shellmemory j

theorem frame_bounds (f j : Nat) : f*frameSize ≤ j ∧ j < (f+1)*frameSize ↔ j / frameSize = f := by
  simp only [frameSize]
  omega

theorem evictFrame_outside (k : Kernel) (f : Nat) : SameOutside f k (evictFrame k f) := by
  intro j apart
  simp only [evictFrame,frame_bounds,apart,if_false]

theorem fillFrame_outside (k : Kernel) (f : Nat) (filename : Text) (page : List Text) :
    SameOutside f k (fillFrame k (f*frameSize) filename page) := by
  intro j apart
  have bounds := frame_bounds f j
  rw [Nat.succ_mul] at bounds
  simp only [fillFrame,bounds,apart,if_false]

theorem padSlots_outside (k : Kernel) (f : Nat) (filename : Text) :
    SameOutside f k (padSlots k filename (f*frameSize+1) (f*frameSize+frameSize)) := by
  intro j apart
  have beyond : ¬(f*frameSize+1 ≤ j ∧ j < f*frameSize+frameSize) := by
    simp only [frameSize] at apart ⊢
    omega
  simp only [padSlots,beyond,if_false]

/-- A change inside one frame keeps the holes in order if it does so in that frame. -/
theorem FrameHoles.frame (z : Sizes) (k k' : Kernel) (holes : FrameHoles z k) (f : Nat)
    (inside : f < z.frameStoreSize) (outside : SameOutside f k k')
    (here : ∀ m < frameSize, IsHole k' (f*frameSize+m) → IsHole k' (f*frameSize)) : FrameHoles z k' := by
  constructor
  · intro g bound m small hole
    obtain rfl | other := eq_or_ne g f
    · exact here m small hole
    · have slot (n : Nat) (within : n < frameSize) : (g*frameSize+n) / frameSize ≠ f := by
        simp only [frameSize] at within ⊢
        omega
      have start := outside _ (slot 0 (by decide))
      rw [Nat.add_zero] at start
      rw [IsHole,start]
      rw [IsHole,outside _ (slot m small)] at hole
      exact holes.first g bound m small hole
  · intro none
    rw [none] at inside
    exact absurd inside (Nat.not_lt_zero f)

theorem firstHole_none (z : Sizes) (k : Kernel) (missed : firstHole z k = none) (j : Nat)
    (below : j < z.threshold) : ¬IsHole k j := by
  intro hole
  have taken := List.find?_eq_none.mp missed j (List.mem_range.mpr below)
  exact taken (beq_iff_eq.mpr hole)

theorem evictFrame_holes (z : Sizes) (k : Kernel) (holes : FrameHoles z k) (f : Nat)
    (inside : f < z.frameStoreSize) : FrameHoles z (evictFrame k f) := by
  refine holes.frame z k _ f inside (evictFrame_outside k f) fun m small hole => ?_
  have here : f*frameSize / frameSize = f := Nat.mul_div_cancel f (by decide)
  simp only [IsHole,evictFrame,frame_bounds,here,if_true]
  rfl

/-- A call that reads chooses a whole frame, and frees it if no slot was free. -/
structure Placed (z : Sizes) (k : Kernel) (fp : TextFile) (table : PageTable) (f : Nat) (k' : Kernel)
    (table' : PageTable) : Prop where
  chosen : choosePlace z k fp table = (f*frameSize,k',table')
  free : IsHole k' (f*frameSize)
  inside : f < z.frameStoreSize
  outside : SameOutside f k k'
  holes : FrameHoles z k'
  timer : k'.timer = k.timer

theorem choosePlace_placed (z : Sizes) (k : Kernel) (holes : FrameHoles z k) (fp : TextFile)
    (loadable : Loadable z k fp) (goesOn : fp.eof = false) (some_slot : 0 < z.threshold) (table : PageTable) :
    ∃ f k' table', Placed z k fp table f k' table' := by
  cases found : firstHole z k with
  | some i =>
    have inside := loadable.place goesOn i found
    have aligned := firstHole_aligned z k holes i found inside
    refine ⟨i / frameSize,k,table,?_,?_,inside,fun _ _ => rfl,holes,rfl⟩
    · simp only [choosePlace,found,aligned]
    · rw [aligned]
      exact (firstHole_some z k i found).2.1
  | none =>
    have some_frame : 0 < z.frameStoreSize := by
      refine Nat.pos_of_ne_zero fun none => ?_
      exact firstHole_none z k found 0 some_slot (holes.bare none 0 some_slot)
    have inside := victimFrame_lt z k some_frame
    refine ⟨victimFrame z k,(pickVictimFrame z k table).2.1,(pickVictimFrame z k table).2.2,?_,?_,inside,?_,?_,?_⟩
    · simp only [choosePlace,found,goesOn,Bool.false_eq_true,if_false]
      rfl
    · exact congrArg MemoryStruct.var (if_pos ((frame_bounds _ _).mpr (Nat.mul_div_cancel _ (by decide))))
    · exact evictFrame_outside {k with ready := forgetReady (victimFrame z k) k.ready} _
    · exact evictFrame_holes z {k with ready := forgetReady (victimFrame z k) k.ready}
        (holes.congr z k _ fun _ _ => rfl) _ inside
    · rfl

theorem Placed.room (z : Sizes) (k k' : Kernel) (fp : TextFile) (table table' : PageTable) (f : Nat)
    (placed : Placed z k fp table f k' table') : f*frameSize+frameSize ≤ z.threshold := by
  have size : z.frameStoreSize*frameSize ≤ z.threshold := Nat.div_mul_le_self _ _
  have inside := placed.inside
  simp only [frameSize] at size ⊢
  omega

theorem loadLines_ended_start (filename : Text) (i pageNum left : Nat) (l : Loading) (z : Sizes)
    (ended : l.fp.eof = true) : loadLines z filename i pageNum left i l = l := by
  cases left with
  | zero => rfl
  | succ left =>
    rw [loadLines_ended z filename i pageNum left i l ended,padPage,
      if_neg (by rw [Nat.sub_self,Nat.zero_mod]; exact fun other => other rfl)]

/-- At the end of its file a process loads nothing. -/
theorem loadPage_ended (z : Sizes) (k : Kernel) (fp : TextFile) (filename : Text) (table : PageTable)
    (pageNum : Nat) (ended : fp.eof = true) :
    loadPageIntoFrameStore z k fp filename table pageNum = ⟨k,fp,table,21⟩ := by
  cases found : firstHole z k with
  | some i =>
    simp only [loadPageIntoFrameStore,choosePlace,found]
    exact loadLines_ended_start filename i pageNum _ _ z ended
  | none =>
    simp only [loadPageIntoFrameStore,choosePlace,found,ended,if_true]
    exact loadLines_ended_start filename z.threshold pageNum _ _ z ended

/-- Without a frame store the loop stops at once. -/
theorem loadPage_without (z : Sizes) (k : Kernel) (fp : TextFile) (filename : Text) (table : PageTable)
    (pageNum : Nat) (without : z.threshold = 0) (goesOn : fp.eof = false) :
    (loadPageIntoFrameStore z k fp filename table pageNum).errorCode = 21 := by
  have missed : firstHole z k = none := by
    simp only [firstHole,without,List.range_zero,List.find?_nil]
  have victim : victimFrame z k = 0 := by
    simp only [victimFrame,Sizes.frameStoreSize,without,Nat.zero_div,List.range_zero,List.foldl_nil]
  simp only [loadPageIntoFrameStore,choosePlace,missed,goesOn,Bool.false_eq_true,if_false,pickVictimFrame,
    victim,without,Nat.zero_mul]
  rw [loadLines,if_neg (by simp only [goesOn,Bool.false_eq_true,not_false_eq_true]),if_pos without.symm]

/-- A call that has something to read puts the next page into the frame it has chosen. -/
theorem loadPage_loaded (z : Sizes) (k : Kernel) (holes : FrameHoles z k) (fp : TextFile) (filename : Text)
    (table : PageTable) (pageNum : Nat) (loadable : Loadable z k fp) (some_slot : 0 < z.threshold)
    (goesOn : fp.eof = false) (more : fp.rest ≠ []) :
    ∃ f k' table', Placed z k fp table f k' table' ∧
      PageLoaded k' fp filename table' pageNum (f*frameSize) (nextPage fp)
        (loadPageIntoFrameStore z k fp filename table pageNum) := by
  obtain ⟨f,k',table',placed⟩ := choosePlace_placed z k holes fp loadable goesOn some_slot table
  refine ⟨f,k',table',placed,?_⟩
  simp only [loadPageIntoFrameStore,placed.chosen]
  exact loadLines_whole z filename (f*frameSize) pageNum k' fp table' goesOn placed.room (loadable.page goesOn) more

/-- A call that has nothing to read fails, and the first hole of its frame stays. -/
theorem loadPage_nothing (z : Sizes) (k : Kernel) (holes : FrameHoles z k) (fp : TextFile) (filename : Text)
    (table : PageTable) (pageNum : Nat) (loadable : Loadable z k fp) (some_slot : 0 < z.threshold)
    (goesOn : fp.eof = false) (nothing : fp.rest = []) :
    (loadPageIntoFrameStore z k fp filename table pageNum).errorCode = 21 ∧
      FrameHoles z (loadPageIntoFrameStore z k fp filename table pageNum).kernel := by
  obtain ⟨f,k',table',placed⟩ := choosePlace_placed z k holes fp loadable goesOn some_slot table
  simp only [loadPageIntoFrameStore,placed.chosen]
  rw [loadLines_nothing z filename (f*frameSize) pageNum k' fp table' goesOn placed.room nothing]
  refine ⟨rfl,placed.holes.frame z k' _ f placed.inside (padSlots_outside k' f filename) fun m small hole => ?_⟩
  have start : ¬(f*frameSize+1 ≤ f*frameSize ∧ f*frameSize < f*frameSize+frameSize) := by omega
  simp only [IsHole,padSlots,start,if_false]
  exact placed.free

/-- A call either fails or puts the next page into the frame it has chosen. -/
theorem loadPage_cases (z : Sizes) (k : Kernel) (holes : FrameHoles z k) (fp : TextFile) (filename : Text)
    (table : PageTable) (pageNum : Nat) (loadable : Loadable z k fp) :
    let l := loadPageIntoFrameStore z k fp filename table pageNum
    (l.errorCode = 21 ∧ FrameHoles z l.kernel) ∨
      ∃ f k' table', Placed z k fp table f k' table' ∧
        PageLoaded k' fp filename table' pageNum (f*frameSize) (nextPage fp) l := by
  by_cases ended : fp.eof = true
  · rw [loadPage_ended z k fp filename table pageNum ended]
    exact .inl ⟨rfl,holes⟩
  have goesOn := Bool.eq_false_iff.mpr ended
  by_cases without : z.threshold = 0
  · refine .inl ⟨loadPage_without z k fp filename table pageNum without goesOn,?_,fun _ j below => ?_⟩
    · intro f inside
      rw [Sizes.frameStoreSize,without] at inside
      exact absurd inside (Nat.not_lt_zero f)
    · exact absurd (without ▸ below) (Nat.not_lt_zero j)
  have some_slot := Nat.pos_of_ne_zero without
  by_cases nothing : fp.rest = []
  · exact .inl (loadPage_nothing z k holes fp filename table pageNum loadable some_slot goesOn nothing)
  · exact .inr (loadPage_loaded z k holes fp filename table pageNum loadable some_slot goesOn nothing)

/-- The shell memories that a run reaches whose loads all are `Loadable`. -/
inductive Reaches (z : Sizes) : Kernel → Prop
  | init (k : Kernel) : Reaches z (memInit z k)
  | setValue (k : Kernel) (varIn valueIn : Text) : Reaches z k → Reaches z (memSetValue z k varIn valueIn)
  | resetMem (k : Kernel) : Reaches z k → Reaches z (variableStoreMemInit z k)
  | execute (k : Kernel) (lineNum : Int) : Reaches z k → Reaches z (incrementLastused z k lineNum)
  | schedule (k : Kernel) (ready : List PCB) : Reaches z k → Reaches z {k with ready := ready}
  | load (k : Kernel) (fp : TextFile) (filename : Text) (table : PageTable) (pageNum : Nat)
      (loadable : Loadable z k fp) :
      Reaches z k → Reaches z (loadPageIntoFrameStore z k fp filename table pageNum).kernel

theorem memSetValue_frames (z : Sizes) (k : Kernel) (varIn valueIn : Text) (j : Nat) (below : j < z.threshold) :
    (memSetValue z k varIn valueIn).shellmemory j = k.shellmemory j := by
  have apart (test : Nat → Bool) (i : Nat) (found : z.variableSlots.find? test = some i) : j ≠ i := by
    have member := (List.mem_range'_1.mp (List.mem_of_find?_eq_some found)).1
    omega
  simp only [memSetValue]
  split
  · rename_i i found
    exact setSlot_other k i j _ (apart _ i found)
  · split
    · rename_i i found
      exact setSlot_other k i j _ (apart _ i found)
    · rfl

theorem incrementLastused_var (z : Sizes) (k : Kernel) (lineNum : Int) (j : Nat) :
    ((incrementLastused z k lineNum).shellmemory j).var = (k.shellmemory j).var := by
  simp only [incrementLastused]
  split
  · obtain rfl | other := eq_or_ne j lineNum.toNat
    · rw [setSlot_same]
    · rw [setSlot_other _ _ j _ other]
  · rfl

theorem fillFrame_var (k : Kernel) (i m : Nat) (filename : Text) (page : List Text) (small : m < frameSize) :
    ((fillFrame k i filename page).shellmemory (i+m)).var = filename := by
  have inside : i ≤ i+m ∧ i+m < i+frameSize := by omega
  simp only [fillFrame,inside,and_self,if_true,pageSlot]
  split <;> rfl

theorem PageLoaded.entry {k : Kernel} {fp : TextFile} {filename : Text} {table : PageTable} {pageNum f : Nat}
    {page : List Text} {l : Loading} (loaded : PageLoaded k fp filename table pageNum (f*frameSize) page l)
    (inside : pageNum < pageTableSize) : l.pageTable pageNum = f := by
  rw [loaded.pageTable,if_pos inside,Function.update_self,Nat.mul_div_cancel f (by decide)]

theorem PageLoaded.slot {k : Kernel} {fp : TextFile} {filename : Text} {table : PageTable} {pageNum f : Nat}
    {page : List Text} {l : Loading} (loaded : PageLoaded k fp filename table pageNum (f*frameSize) page l)
    (m : Nat) (small : m < frameSize) : (l.kernel.shellmemory (f*frameSize+m)).var = filename ∧
      (l.kernel.shellmemory (f*frameSize+m)).value = page.getD m noneText := by
  rw [loaded.kernel]
  refine ⟨fillFrame_var k _ m filename _ small,?_⟩
  have inside : f*frameSize ≤ f*frameSize+m ∧ f*frameSize+m < f*frameSize+frameSize := by omega
  simp only [fillFrame,inside,and_self,if_true,pageSlot,Nat.add_sub_cancel_left,List.getD_eq_getElem?_getD]
  cases page[m]? <;> rfl

theorem Reaches.holes (z : Sizes) (k : Kernel) (reached : Reaches z k) : FrameHoles z k := by
  induction reached with
  | init k =>
    have all (j : Nat) (below : j < z.threshold) : IsHole (memInit z k) j := by
      have inside : j < z.shellMemLength := Nat.lt_add_left _ below
      simp only [IsHole,memInit,inside,if_true]
      rfl
    refine ⟨fun f inside m small _ => all _ ?_,fun _ => all⟩
    have size : z.frameStoreSize*frameSize ≤ z.threshold := Nat.div_mul_le_self _ _
    simp only [frameSize] at size ⊢
    omega
  | setValue k varIn valueIn _ ih =>
    exact ih.congr z k _ fun j below => congrArg _ (memSetValue_frames z k varIn valueIn j below)
  | resetMem k _ ih =>
    refine ih.congr z k _ fun j below => ?_
    simp only [variableStoreMemInit,Nat.not_le.mpr below,false_and,if_false]
  | execute k lineNum _ ih => exact ih.congr z k _ fun j _ => incrementLastused_var z k lineNum j
  | schedule k ready _ ih => exact ih.congr z k _ fun _ _ => rfl
  | load k fp filename table pageNum loadable _ ih =>
    obtain ⟨_,holes⟩ | ⟨f,k',table',placed,loaded⟩ := loadPage_cases z k ih fp filename table pageNum loadable
    · exact holes
    · rw [loaded.kernel]
      refine placed.holes.frame z k' _ f placed.inside (fillFrame_outside k' f filename _) fun m small hole => ?_
      have start := fillFrame_var k' (f*frameSize) 0 filename (nextPage fp) (by decide)
      rw [IsHole,fillFrame_var k' _ m filename _ small] at hole
      rw [Nat.add_zero] at start
      exact start.trans hole

/-- A load that succeeds fills one whole frame with the next page and changes nothing else. -/
theorem load_page_exact (z : Sizes) (k : Kernel) (reached : Reaches z k) (fp : TextFile) (filename : Text)
    (table : PageTable) (pageNum : Nat) (entry : pageNum < pageTableSize) (loadable : Loadable z k fp)
    (succeeds : (loadPageIntoFrameStore z k fp filename table pageNum).errorCode = 0) :
    let l := loadPageIntoFrameStore z k fp filename table pageNum
    ∃ f, f < z.frameStoreSize ∧ l.pageTable pageNum = (f : Int) ∧
      (∀ m < frameSize, (l.kernel.shellmemory (f*frameSize+m)).var = filename ∧
        (l.kernel.shellmemory (f*frameSize+m)).value = (nextPage fp).getD m noneText) ∧
      (∀ j, j / frameSize ≠ f → l.kernel.shellmemory j = k.shellmemory j) ∧
      ∀ j, z.threshold ≤ j → l.kernel.shellmemory j = k.shellmemory j := by
  obtain ⟨fails,_⟩ | ⟨f,k',table',placed,loaded⟩ :=
    loadPage_cases z k reached.holes fp filename table pageNum loadable
  · exact absurd (fails.symm.trans succeeds) (by decide)
  have kept : ∀ j, j / frameSize ≠ f →
      (loadPageIntoFrameStore z k fp filename table pageNum).kernel.shellmemory j = k.shellmemory j := by
    intro j apart
    rw [loaded.kernel]
    exact (fillFrame_outside k' f filename _ j apart).trans (placed.outside j apart)
  refine ⟨f,placed.inside,loaded.entry entry,loaded.slot,kept,fun j above => kept j ?_⟩
  have room := placed.room
  simp only [frameSize] at room ⊢
  omega

/-- A frame store of one frame, before anything was loaded. -/
def oneFrame : Sizes := ⟨3,7⟩

def started (z : Sizes) : Kernel := memInit z ⟨fun _ => emptySlot 0,0,[]⟩

theorem started_reaches (z : Sizes) : Reaches z (started z) := .init _

/-- A script of two lines without a final newline is loaded exactly. -/
theorem two_lines_loaded :
    let fp : TextFile := ⟨['a','\n','b'],0,false⟩
    let l := loadPageIntoFrameStore oneFrame (started oneFrame) fp ['x'] (fun _ => -1) 0
    ∃ f, f < oneFrame.frameStoreSize ∧ l.pageTable 0 = (f : Int) ∧
      (∀ m < frameSize, (l.kernel.shellmemory (f*frameSize+m)).var = ['x'] ∧
        (l.kernel.shellmemory (f*frameSize+m)).value = (nextPage fp).getD m noneText) ∧
      (∀ j, j / frameSize ≠ f → l.kernel.shellmemory j = (started oneFrame).shellmemory j) ∧
      ∀ j, oneFrame.threshold ≤ j → l.kernel.shellmemory j = (started oneFrame).shellmemory j :=
  load_page_exact oneFrame (started oneFrame) (started_reaches oneFrame) ⟨['a','\n','b'],0,false⟩ ['x']
    (fun _ => -1) 0 (by decide)
    ⟨fun _ => ⟨by decide,.inr (by decide)⟩,fun _ => by decide⟩ (by decide)

/-- A final newline after one line: the read that fails skips slot 1, which keeps its label `none`. -/
theorem final_newline_skips_slot :
    let fp : TextFile := ⟨['a','\n'],0,false⟩
    let l := loadPageIntoFrameStore oneFrame (started oneFrame) fp ['x'] (fun _ => -1) 0
    Reaches oneFrame (started oneFrame) ∧ l.errorCode = 0 ∧
      ¬∃ f, f < oneFrame.frameStoreSize ∧ l.pageTable 0 = (f : Int) ∧
        ∀ m < frameSize, (l.kernel.shellmemory (f*frameSize+m)).var = ['x'] ∧
          (l.kernel.shellmemory (f*frameSize+m)).value = (nextPage fp).getD m noneText := by
  refine ⟨started_reaches oneFrame,by decide,?_⟩
  rintro ⟨f,inside,_,exact_⟩
  have first : f = 0 := Nat.lt_one_iff.mp inside
  subst first
  exact absurd (exact_ 1 (by decide)).1 (by decide)

end MyShell.Paging
