import Mathlib.Data.List.GetD
import Mathlib.Data.List.TakeWhile
import MyShell.Paging.FrameStore

/-! What a call of `load_page_into_frame_store` does: it fills one frame with the next
lines of the file, as long as no read of it fails in the middle of the page. -/
namespace MyShell.Paging
open TextFile

variable (z : Sizes) (filename : Text) (i pageNum : Nat)

/-- The next lines of a file that make up a page. -/
def nextPage (fp : TextFile) : List Text := (lines fp.rest).take frameSize

/-- The slot `m` of a frame that holds a page. -/
def pageSlot (filename : Text) (page : List Text) (timer m : Nat) : MemoryStruct :=
  match page[m]? with
  | some line => ⟨filename,line,timer⟩
  | none => ⟨filename,noneText,0⟩

def fillFrame (k : Kernel) (i : Nat) (filename : Text) (page : List Text) : Kernel :=
  {k with shellmemory := fun j =>
    if i ≤ j ∧ j < i+frameSize then pageSlot filename page k.timer (j-i) else k.shellmemory j}

/-- Every line of the page fits the buffer, and either the page is full or the read of
its last line, which has no newline, meets the end of the file. -/
structure WholePage (z : Sizes) (fp : TextFile) : Prop where
  short : ∀ line ∈ nextPage fp, line.length < z.shellMemLength ∧ '\x00' ∉ line
  ends : frameSize ≤ (lines fp.rest).length ∨
    ∀ line, (lines fp.rest).getLast? = some line → '\n' ∉ line ∧ line.length+1 < z.shellMemLength

theorem setSlot_same (k : Kernel) (j : Nat) (slot : MemoryStruct) : (setSlot k j slot).shellmemory j = slot :=
  Function.update_self _ _ _

theorem setSlot_other (k : Kernel) (j other : Nat) (slot : MemoryStruct) (apart : other ≠ j) :
    (setSlot k j slot).shellmemory other = k.shellmemory other :=
  Function.update_of_ne apart _ _

theorem takeWhile_plain (line : Text) (plain : '\x00' ∉ line) : line.takeWhile (· ≠ '\x00') = line :=
  List.takeWhile_eq_self_iff.mpr fun _ member => decide_eq_true fun same => plain (same ▸ member)

/-- The file after a line that fits the buffer. -/
def afterLine (z : Sizes) (fp : TextFile) (line : Text) : TextFile :=
  fp.advance line.length (decide (line.length < z.shellMemLength-1) && decide ('\n' ∉ line))

/-- The loop takes a line that fits the buffer and goes on to the next slot. -/
theorem loadLines_line (left j : Nat) (l : Loading) (line : Text) (more : List Text)
    (goesOn : l.fp.eof = false) (below : j < z.threshold) (within : (j-i) % frameSize = 0 → j = i)
    (split : lines l.fp.rest = line :: more) (fits : line.length < z.shellMemLength) :
    loadLines z filename i pageNum (left+1) j l =
      loadLines z filename i pageNum left (j+1) (storeLine filename i pageNum j line
        {l with fp := afterLine z l.fp line}) := by
  have read := fgets_line z.shellMemLength l.fp line more split fits
  rw [goesOn,Bool.false_or] at read
  rw [loadLines,if_neg (by rw [goesOn]; exact Bool.false_ne_true),if_neg (Nat.ne_of_lt below),
    if_neg (fun full => full.2 (within full.1)),read,afterLine]

theorem loadLines_ended (left j : Nat) (l : Loading) (ended : l.fp.eof = true) :
    loadLines z filename i pageNum (left+1) j l =
      {l with kernel := padPage filename i frameSize j l.kernel} := by
  rw [loadLines,if_pos ended]

/-- Behind a full page the loop stops, whatever the file has left. -/
theorem loadLines_full (left : Nat) (l : Loading) :
    loadLines z filename i pageNum (left+1) (i+frameSize) l = l := by
  have whole : (i+frameSize-i) % frameSize = 0 := by
    rw [Nat.add_sub_cancel_left,Nat.mod_self]
  have further : i+frameSize ≠ i := by
    simp only [frameSize]
    omega
  rw [loadLines]
  split
  · rw [padPage,if_neg (fun open_ => open_ whole)]
  · rw [if_pos (⟨whole,further⟩ : _ ∧ _)]
    exact ite_self l

/-- The kernel with the slots from `start` up to `stop` padded. -/
def padSlots (k : Kernel) (filename : Text) (start stop : Nat) : Kernel :=
  {k with shellmemory := fun j =>
    if start ≤ j ∧ j < stop then ⟨filename,noneText,0⟩ else k.shellmemory j}

theorem padSlots_empty (k : Kernel) (start : Nat) : padSlots k filename start start = k := by
  have empty (j : Nat) : ¬(start ≤ j ∧ j < start) := fun bounds => Nat.not_lt.mpr bounds.1 bounds.2
  simp only [padSlots,empty,if_false]

theorem padSlots_first (k : Kernel) (start stop : Nat) (below : start < stop) :
    padSlots (setSlot k start ⟨filename,noneText,0⟩) filename (start+1) stop = padSlots k filename start stop := by
  have slots : (fun j => if start+1 ≤ j ∧ j < stop then (⟨filename,noneText,0⟩ : MemoryStruct)
      else (setSlot k start ⟨filename,noneText,0⟩).shellmemory j) =
      fun j => if start ≤ j ∧ j < stop then ⟨filename,noneText,0⟩ else k.shellmemory j := by
    funext j
    by_cases here : j = start
    · subst here
      rw [if_neg (by omega),if_pos ⟨le_rfl,below⟩,setSlot_same]
    · rw [setSlot_other k start j _ here]
      exact if_congr (by omega) rfl rfl
  exact congrArg (fun memory => ({k with shellmemory := memory} : Kernel)) slots

/-- Padding with `count` slots of the frame left fills exactly these. -/
theorem padPage_slots (count fuel : Nat) (k : Kernel) (started : count < frameSize) (enough : count ≤ fuel) :
    padPage filename i fuel (i+frameSize-count) k = padSlots k filename (i+frameSize-count) (i+frameSize) := by
  induction count generalizing fuel k with
  | zero =>
    rw [Nat.sub_zero,padSlots_empty filename]
    cases fuel with
    | zero => rfl
    | succ fuel => rw [padPage,if_neg (by rw [Nat.add_sub_cancel_left,Nat.mod_self]; exact fun h => h rfl)]
  | succ count ih =>
    obtain ⟨fuel,rfl⟩ := Nat.exists_eq_add_of_le' (Nat.le_trans (Nat.le_add_left 1 count) enough)
    simp only [frameSize] at started
    have next : i+frameSize-(count+1)+1 = i+frameSize-count := by
      simp only [frameSize]
      omega
    have open_ : (i+frameSize-(count+1)-i) % frameSize ≠ 0 := by
      simp only [frameSize]
      omega
    rw [padPage,if_pos open_,next,ih fuel _ (by simp only [frameSize]; omega) (by omega),← next,
      padSlots_first filename k _ _ (by simp only [frameSize]; omega)]

/-- Lines taken into the slots from `j` on. -/
def storeLines (z : Sizes) (filename : Text) (i pageNum : Nat) : Nat → List Text → Loading → Loading
  | _, [], l => l
  | j, line :: page, l =>
    storeLines z filename i pageNum (j+1) page
      (storeLine filename i pageNum j line {l with fp := afterLine z l.fp line})

/-- The loop takes the lines of a page one after the other. -/
theorem loadLines_page (page more : List Text) (left j : Nat) (l : Loading) (goesOn : l.fp.eof = false)
    (start : i ≤ j) (within : j+page.length ≤ i+frameSize) (room : j+page.length ≤ z.threshold)
    (split : lines l.fp.rest = page ++ more) (fits : ∀ line ∈ page, line.length < z.shellMemLength) :
    loadLines z filename i pageNum (left+page.length) j l =
      loadLines z filename i pageNum left (j+page.length) (storeLines z filename i pageNum j page l) := by
  induction page generalizing j l with
  | nil => rfl
  | cons line page ih =>
    rw [List.length_cons] at within room
    have taken : loadLines z filename i pageNum (left+page.length+1) j l = _ := loadLines_line z filename i pageNum (left+page.length) j l line
      (page ++ more) goesOn (by omega) (fun zero => by simp only [frameSize] at within zero; omega) split
      (fits line List.mem_cons_self)
    rw [List.length_cons,← Nat.add_assoc,taken,storeLines,Nat.add_comm page.length,← Nat.add_assoc]
    cases page with
    | nil => rfl
    | cons next page =>
      have newline := newline_mem_line _ line _ split (List.cons_ne_nil _ _)
      refine ih (j+1) _ ?_ (by omega) (by omega) (by omega) ?_ fun other member =>
        fits other (List.mem_cons_of_mem _ member)
      · simp only [storeLine,afterLine,advance,newline,not_true_eq_false,decide_false,Bool.and_false]
      · have rest : (afterLine z l.fp line).rest = l.fp.rest.drop line.length := advance_rest _ _ _
        exact (congrArg lines rest).trans (lines_drop _ line _ split)

/-- The kernel with the lines of a page in the slots from `j` on. -/
def placeLines (k : Kernel) (j : Nat) (filename : Text) (page : List Text) : Kernel :=
  {k with shellmemory := fun x =>
    if j ≤ x ∧ x < j+page.length then ⟨filename,page.getD (x-j) [],k.timer⟩ else k.shellmemory x}

theorem placeLines_cons (k : Kernel) (j : Nat) (line : Text) (page : List Text) :
    placeLines (setSlot k j ⟨filename,line,k.timer⟩) (j+1) filename page =
      placeLines k j filename (line :: page) := by
  have slots (x : Nat) : (placeLines (setSlot k j ⟨filename,line,k.timer⟩) (j+1) filename page).shellmemory x =
      (placeLines k j filename (line :: page)).shellmemory x := by
    simp only [placeLines,List.length_cons]
    by_cases here : x = j
    · subst here
      rw [if_neg (by omega),if_pos (by omega),setSlot_same,Nat.sub_self,List.getD_cons_zero]
    · by_cases within : j+1 ≤ x ∧ x < j+1+page.length
      · have index : x-j = x-(j+1)+1 := by omega
        rw [if_pos within,if_pos (by omega),index,List.getD_cons_succ]
        rfl
      · rw [if_neg within,if_neg (by omega),setSlot_other k j x _ here]
  exact congrArg (fun memory => ({k with shellmemory := memory} : Kernel)) (funext slots)

theorem storeLines_kernel (page : List Text) (j : Nat) (l : Loading) (plain : ∀ line ∈ page, '\x00' ∉ line) :
    (storeLines z filename i pageNum j page l).kernel = placeLines l.kernel j filename page := by
  induction page generalizing j l with
  | nil =>
    have empty (x : Nat) : ¬(j ≤ x ∧ x < j+0) := by omega
    simp only [storeLines,placeLines,List.length_nil,empty,if_false]
  | cons line page ih =>
    rw [storeLines,ih _ _ fun other member => plain other (List.mem_cons_of_mem _ member),storeLine,
      takeWhile_plain line (plain line List.mem_cons_self)]
    exact placeLines_cons filename l.kernel j line page

theorem storeLines_fp (page : List Text) (j : Nat) (l : Loading) :
    ∃ eof, (storeLines z filename i pageNum j page l).fp = l.fp.advance page.flatten.length eof := by
  induction page generalizing j l with
  | nil => exact ⟨l.fp.eof,rfl⟩
  | cons line page ih =>
    obtain ⟨eof,after⟩ := ih (j+1) (storeLine filename i pageNum j line {l with fp := afterLine z l.fp line})
    refine ⟨eof,?_⟩
    rw [storeLines,after,List.flatten_cons,List.length_append]
    simp only [storeLine,afterLine,advance,Nat.add_assoc]

theorem storeLines_errorCode (line : Text) (page : List Text) (j : Nat) (l : Loading) :
    (storeLines z filename i pageNum j (line :: page) l).errorCode = 0 := by
  induction page generalizing j l line with
  | nil => rfl
  | cons next page ih =>
    rw [storeLines]
    exact ih next _ _

/-- Only the first line of a page enters the page table. -/
theorem storeLines_pageTable (page : List Text) (j : Nat) (l : Loading) (start : i < j)
    (within : j+page.length ≤ i+frameSize) :
    (storeLines z filename i pageNum j page l).pageTable = l.pageTable := by
  induction page generalizing j l with
  | nil => rfl
  | cons line page ih =>
    rw [List.length_cons] at within
    have inside : ¬((j-i) % frameSize = 0 ∧ pageNum < pageTableSize) := by
      simp only [frameSize] at within ⊢
      omega
    rw [storeLines,ih _ _ (by omega) (by omega),storeLine,if_neg inside]

theorem storeLines_eof (page : List Text) (line : Text) (j : Nat) (l : Loading)
    (last : page.getLast? = some line) : (storeLines z filename i pageNum j page l).fp.eof =
      (decide (line.length < z.shellMemLength-1) && decide ('\n' ∉ line)) := by
  induction page generalizing j l with
  | nil => exact absurd last.symm (Option.some_ne_none _)
  | cons first page ih =>
    cases page with
    | nil =>
      obtain rfl := Option.some.inj last
      rfl
    | cons next page =>
      rw [storeLines]
      exact ih (j+1) _ (by rwa [List.getLast?_cons_cons] at last)

theorem fillFrame_eq (k : Kernel) (page : List Text) (within : page.length ≤ frameSize) :
    padSlots (placeLines k i filename page) filename (i+page.length) (i+frameSize) =
      fillFrame k i filename page := by
  have slots (x : Nat) : (padSlots (placeLines k i filename page) filename (i+page.length)
      (i+frameSize)).shellmemory x = (fillFrame k i filename page).shellmemory x := by
    simp only [padSlots,placeLines,fillFrame,pageSlot]
    by_cases inside : i ≤ x ∧ x < i+frameSize
    · by_cases padded : i+page.length ≤ x
      · rw [if_pos ⟨padded,inside.2⟩,if_pos inside,List.getElem?_eq_none (by omega)]
      · have index : x-i < page.length := by omega
        rw [if_neg (by omega),if_pos (by omega),if_pos inside,List.getElem?_eq_getElem index,
          List.getD_eq_getElem _ _ index]
    · rw [if_neg (by omega),if_neg (by omega),if_neg inside]
  exact congrArg (fun memory => ({k with shellmemory := memory} : Kernel)) (funext slots)

/-- What a load leaves behind that has put `page` into the frame at slot `i`. -/
structure PageLoaded (k : Kernel) (fp : TextFile) (filename : Text) (table : PageTable) (pageNum i : Nat)
    (page : List Text) (l : Loading) : Prop where
  kernel : l.kernel = fillFrame k i filename page
  fp : ∃ eof, l.fp = fp.advance page.flatten.length eof
  pageTable : l.pageTable =
    if pageNum < pageTableSize then Function.update table pageNum ((i / frameSize : Nat) : Int) else table
  errorCode : l.errorCode = 0

theorem loadLines_whole (k : Kernel) (fp : TextFile) (table : PageTable) (goesOn : fp.eof = false)
    (room : i+frameSize ≤ z.threshold) (whole : WholePage z fp) (more : fp.rest ≠ []) :
    PageLoaded k fp filename table pageNum i (nextPage fp)
      (loadLines z filename i pageNum (z.threshold+1-i) i ⟨k,fp,table,21⟩) := by
  have bound : (nextPage fp).length ≤ frameSize := List.length_take_le _ _
  have split : lines fp.rest = nextPage fp ++ (lines fp.rest).drop frameSize := (List.take_append_drop _ _).symm
  obtain ⟨line,page,shape⟩ : ∃ line page, nextPage fp = line :: page := by
    cases shape : lines fp.rest with
    | nil => exact absurd ((lines_eq_nil _).mp shape) more
    | cons line others => exact ⟨line,others.take 2,by rw [nextPage,shape]; rfl⟩
  have positive : 0 < (nextPage fp).length := by
    rw [shape]
    exact Nat.succ_pos _
  obtain ⟨left,count⟩ : ∃ left, z.threshold+1-i = left+1+(nextPage fp).length :=
    ⟨z.threshold-i-(nextPage fp).length,by omega⟩
  have taken := loadLines_page z filename i pageNum (nextPage fp) _ (left+1) i ⟨k,fp,table,21⟩ goesOn le_rfl
    (by omega) (by omega) split fun other member => (whole.short other member).1
  have kernel := storeLines_kernel z filename i pageNum (nextPage fp) i ⟨k,fp,table,21⟩ fun other member =>
    (whole.short other member).2
  obtain ⟨eof,file⟩ := storeLines_fp z filename i pageNum (nextPage fp) i ⟨k,fp,table,21⟩
  have code : (storeLines z filename i pageNum i (nextPage fp) ⟨k,fp,table,21⟩).errorCode = 0 := by
    rw [shape]
    exact storeLines_errorCode z filename i pageNum line page i _
  have entries : (storeLines z filename i pageNum i (nextPage fp) ⟨k,fp,table,21⟩).pageTable =
      if pageNum < pageTableSize then Function.update table pageNum ((i / frameSize : Nat) : Int) else table := by
    rw [shape,List.length_cons] at bound
    rw [shape,storeLines,storeLines_pageTable z filename i pageNum page (i+1) _ (Nat.lt_succ_self i) (by omega),
      storeLine,Nat.sub_self,Nat.zero_mod]
    simp only [true_and]
  rw [count,taken]
  by_cases full : (nextPage fp).length = frameSize
  · rw [full,loadLines_full]
    refine ⟨?_,⟨eof,file⟩,entries,code⟩
    rw [kernel,← fillFrame_eq filename i k _ bound,full,padSlots_empty]
  · have cut : nextPage fp = lines fp.rest := by
      refine List.take_of_length_le ?_
      rw [nextPage,List.length_take] at full bound
      omega
    have last := List.getLast?_eq_some_getLast (l := nextPage fp) (List.ne_nil_of_length_pos positive)
    obtain enough | unended := whole.ends
    · rw [← cut] at enough
      omega
    have final := unended _ ((congrArg List.getLast? cut).symm.trans last)
    have ended : (storeLines z filename i pageNum i (nextPage fp) ⟨k,fp,table,21⟩).fp.eof = true := by
      rw [storeLines_eof z filename i pageNum _ _ i _ last,decide_eq_true final.1,Bool.and_true]
      exact decide_eq_true (by omega)
    have place : i+(nextPage fp).length = i+frameSize-(frameSize-(nextPage fp).length) := by omega
    rw [loadLines_ended z filename i pageNum left _ _ ended]
    refine ⟨?_,⟨eof,file⟩,entries,code⟩
    rw [place,padPage_slots filename i _ frameSize _ (by omega) (by omega),← place,kernel,
      fillFrame_eq filename i k _ bound]

/-- With nothing left to read the call fails, and pads the rest of the frame it has chosen. -/
theorem loadLines_nothing (k : Kernel) (fp : TextFile) (table : PageTable) (goesOn : fp.eof = false)
    (room : i+frameSize ≤ z.threshold) (nothing : fp.rest = []) :
    loadLines z filename i pageNum (z.threshold+1-i) i ⟨k,fp,table,21⟩ =
      ⟨padSlots k filename (i+1) (i+frameSize),{fp with eof := true},table,21⟩ := by
  have large : 1 < z.shellMemLength := by
    simp only [Sizes.shellMemLength,frameSize] at room ⊢
    omega
  obtain ⟨left,count⟩ : ∃ left, z.threshold+1-i = left+1+1 := ⟨z.threshold-i-1,by simp only [frameSize] at room; omega⟩
  rw [count,loadLines,if_neg (by rw [goesOn]; exact Bool.false_ne_true),if_neg (by omega),
    if_neg (fun full => full.2 rfl),fgets_end z.shellMemLength fp large nothing]
  exact (loadLines_ended z filename i pageNum left (i+1) _ rfl).trans
    (congrArg (fun kernel => Loading.mk kernel _ table 21)
      (padPage_slots filename i 2 frameSize k (by decide) (by decide)))

end MyShell.Paging
