import MyShell.Demand.Residence

/-! A page fault takes the first free frame, or the one of the page used least recently. -/
namespace MyShell.Demand
open RecencyList TextFile

/-- The next page of a process comes to a frame. -/
def loadNext (s : Progress) (p : Nat) : Progress :=
  {s with
    loaded := Function.update s.loaded p (s.loaded p + 1)
    resident := (p,s.loaded p) :: s.resident
    history := .loaded (p,s.loaded p) :: s.history}

/-- What the load of a page does to its process and to the frames. -/
structure PageLoaded (text : Text) (border frame p i : Nat) (m m' : Memory) (pcb pcb' : PCB) : Prop where
  done : loadPage border m pcb i = some (m',pcb')
  same : pcb' = {pcb with pageTable := pcb'.pageTable, sourceFile := pcb'.sourceFile}
  others : ∀ j, j ≠ i → pcb'.pageTable j = pcb.pageTable j
  file : lines pcb'.sourceFile.rest = (lines pcb.sourceFile.rest).drop 3
  framed : Framed (keptLines text) m' (pcb'.pageTable i) (p,i) frame
  frames : ∀ n, ¬(3*frame ≤ n ∧ n < 3*frame + 3) → m' n = m n

theorem loadPage_loaded {text : Text} {border frame p i : Nat} {m : Memory} {pcb : PCB} (own : pcb.pid = p)
    (short : ShortLines text) (file : lines pcb.sourceFile.rest = (lines text).drop (3*i)) (room : 3*frame + 3 ≤ border)
    (used : ∀ j < 3*frame, (m j).var ≠ noneText) (free : ∀ j, 3*frame ≤ j → j < 3*frame + 3 → (m j).var = noneText) :
    ∃ m' pcb', PageLoaded text border frame p i m m' pcb pcb' := by
  obtain ⟨page,rest⟩ := readLines_spec pageLines pcb.sourceFile fun line member => by
    rw [file] at member
    exact short line (List.mem_of_mem_drop member)
  have allocated := frameAlloc_first border m (pidText p) (3*frame) room used free
  let entry : Page := {pcb.pageTable i with index := fun j => 3*frame + j, validBit := fun _ => false}
  obtain ⟨index,valid,memory⟩ := storeLines_spec (pidText p) (readLines pageLines pcb.sourceFile).1 (3*frame) 0
    (fun k => if 3*frame ≤ k ∧ k < 3*frame + 3 then {m k with var := pidText p} else m k) entry rfl
  have count : (readLines pageLines pcb.sourceFile).1.length = min 3 ((keptLines text).length - 3*i) := by
    rw [page,file,List.length_take,List.length_drop,keptLines,List.length_map]
  have content (j : Nat) (less : j < 3) : keptLine ((readLines pageLines pcb.sourceFile).1.getD j []) =
      (keptLines text).getD (3*i + j) [] := by
    have raw : (readLines pageLines pcb.sourceFile).1.getD j [] = (lines text).getD (3*i + j) [] := by
      rw [page,file,List.getD_eq_getElem?_getD,List.getD_eq_getElem?_getD,List.getElem?_take_of_lt less,List.getElem?_drop]
    rw [raw,keptLines,List.getD_eq_getElem?_getD,List.getD_eq_getElem?_getD,List.getElem?_map]
    cases (lines text)[3*i + j]? <;> rfl
  generalize store : storeLines (pidText p) 0 (readLines pageLines pcb.sourceFile).1
    (fun k => if 3*frame ≤ k ∧ k < 3*frame + 3 then {m k with var := pidText p} else m k,entry) = stored
    at index valid memory
  refine ⟨stored.1,{pcb with
    pageTable := Function.update pcb.pageTable i stored.2
    sourceFile := (readLines pageLines pcb.sourceFile).2},?_,rfl,?_,?_,?_,?_⟩
  · unfold loadPage
    rw [own,allocated]
    simp only [Option.map_some]
    rw [store]
  · exact fun j other => Function.update_of_ne other ..
  · exact rest
  · have table : Function.update pcb.pageTable i stored.2 i = stored.2 := Function.update_self ..
    simp only [table]
    constructor
    · exact index
    · intro j less
      rw [valid,count]
      refine (Bool.or_false _).trans (decide_eq_decide.mpr ?_)
      simp only
      omega
    · intro j less
      rw [memory,Nat.add_zero]
      split
      · rfl
      · rw [if_pos (by omega)]
    · intro j less inside
      simp only at inside
      rw [memory,Nat.add_zero,count,if_pos (by omega),Nat.add_sub_cancel_left]
      exact content j less
  · intro n outside
    rw [memory,Nat.add_zero,count,if_neg (by omega),if_neg outside]

section
variable {W : Type} {border frame : Nat} {shell : Shell W} {start : Memory × W} {texts : Nat → Text}
  {pids used : Finset Nat} {k : Kernel W}
  {s : Progress} {p : Nat}

/-- Slots of frames in use are not free. -/
theorem Follows.occupied (follows : Follows border shell start texts pids used k s) (i : Nat) (ours : i/3 ∈ used) :
    (k.memory i).var ≠ noneText := by
  obtain ⟨page,resident,first⟩ := follows.held _ ours
  obtain ⟨frame,_,framed⟩ := follows.framed page resident
  rw [framed.index] at first
  have owner := framed.owner (i % 3) (Nat.mod_lt _ (by decide))
  have place : 3*frame + i % 3 = i := by
    have start : 3*frame + 0 = 3*(i/3) := first
    omega
  rw [place] at owner
  rw [owner]
  exact pidText_used _

theorem Follows.requeue (follows : Follows border shell start texts pids used k s) (queue : List Nat) :
    Follows border shell start texts pids used {k with queue := queue} {s with queue := queue} where
  queue := rfl
  lru := follows.lru
  history := follows.history
  known := follows.known
  runs p member := by
    have before := follows.runs p member
    exact ⟨before.pid,before.size,before.counter,before.table,before.file,before.missing,before.gone⟩
  framed := follows.framed
  apart := follows.apart
  held := follows.held
  free := follows.free
  within := follows.within
  effects := follows.effects

theorem Follows.load (follows : Follows border shell start texts pids used k s) (member : p ∈ pids) (short : ShortLines (texts p))
    (fresh : (p,s.loaded p) ∉ s.resident) (new : frame ∉ used) (first : ∀ f < frame, f ∈ used) (room : 3*frame + 3 ≤ border) :
    ∃ k', load border k p (s.loaded p) = some k' ∧ k'.queue = k.queue ∧ k'.lruCache = k.lruCache ∧
      Follows border shell start texts pids (insert frame used) {k' with lruCache := (p,s.loaded p) :: k'.lruCache} (loadNext s p) := by
  have runs := follows.runs p member
  obtain ⟨m',pcb',loaded⟩ := loadPage_loaded (i := s.loaded p) runs.pid short runs.file room
    (fun j less => follows.occupied j (first _ (by omega)))
    (fun j least less => follows.free j (by omega) (by
      have place : j/3 = frame := by omega
      exact place ▸ new))
  let k1 : Kernel W := {k with
    memory := m'
    pcbs := Function.update k.pcbs p pcb'
    history := .loaded (p,s.loaded p) :: k.history}
  have own : k1.pcbs p = pcb' := Function.update_self ..
  have foreign (q : Nat) (other : q ≠ p) : k1.pcbs q = k.pcbs q := Function.update_of_ne other ..
  have entries (page : Nat × Nat) (other : page ≠ (p,s.loaded p)) : k1.entry page = k.entry page := by
    unfold Kernel.entry
    by_cases here : page.1 = p
    · rw [here,own]
      exact loaded.others _ fun same => other (Prod.ext here same)
    · rw [foreign _ here]
  have newEntry : k1.entry (p,s.loaded p) = pcb'.pageTable (s.loaded p) := by
    unfold Kernel.entry
    simp only [own]
  have old : ∀ page ∈ s.resident, page ≠ (p,s.loaded p) := fun page inside same => fresh (same ▸ inside)
  have oldIndex : ∀ page ∈ s.resident, (k1.entry page).index 0 ≠ 3*frame := by
    intro page inside same
    obtain ⟨other,ours,framed⟩ := follows.framed page inside
    rw [entries page (old page inside),framed.index] at same
    have equal : other = frame := by
      have start : 3*other + 0 = 3*frame := same
      omega
    exact new (equal ▸ ours)
  have newIndex : (k1.entry (p,s.loaded p)).index 0 = 3*frame := by
    rw [newEntry,loaded.framed.index]
    rfl
  refine ⟨k1,?_,rfl,rfl,?_⟩
  · unfold Demand.load
    rw [loaded.done]
    rfl
  · constructor
    · exact follows.queue
    · exact congrArg (_ :: ·) follows.lru
    · exact congrArg (_ :: ·) follows.history
    · exact follows.known
    · intro q queued
      have before := follows.runs q queued
      have absent (i : Nat) (out : (q,i) ∉ (p,s.loaded p) :: s.resident) : (q,i) ≠ (p,s.loaded p) ∧ (q,i) ∉ s.resident := by
        rw [List.mem_cons,not_or] at out
        exact out
      have unseen (i : Nat) (out : (q,i) ∉ (loadNext s p).resident) (j : Nat) (less : j < 3) :
          ((k1.pcbs q).pageTable i).validBit j = false := by
        have parts := absent i out
        have same : k1.entry (q,i) = k.entry (q,i) := entries _ parts.1
        exact (congrArg (Page.validBit · j) same).trans (before.missing i parts.2 j less)
      have vacated (i : Nat) (below : i < s.loaded q) (out : (q,i) ∉ (loadNext s p).resident) (j : Nat) (less : j < 3) :
          ((k1.pcbs q).pageTable i).index j = 0 := by
        have parts := absent i out
        have same : k1.entry (q,i) = k.entry (q,i) := entries _ parts.1
        exact (congrArg (Page.index · j) same).trans (before.gone i below parts.2 j less)
      rcases eq_or_ne q p with rfl | other
      · have count : (loadNext s q).loaded q = s.loaded q + 1 := Function.update_self ..
        have self := own.trans loaded.same
        have process : RunsAs (texts q) (loadNext s q) q (k1.pcbs q) := by
          constructor
          · rw [self]
            exact before.pid
          · rw [self]
            exact before.size
          · rw [self]
            exact before.counter
          · rw [self]
            exact before.table
          · rw [own,loaded.file,before.file,List.drop_drop,count]
            rfl
          · exact unseen
          · intro i below out
            rw [count] at below
            refine vacated i (Nat.lt_of_le_of_ne (Nat.le_of_lt_succ below) ?_) out
            rintro rfl
            exact out List.mem_cons_self
        exact process
      · have count : (loadNext s p).loaded q = s.loaded q := Function.update_of_ne other ..
        have process : RunsAs (texts q) (loadNext s p) q (k1.pcbs q) := by
          constructor
          · rw [foreign q other]
            exact before.pid
          · rw [foreign q other]
            exact before.size
          · rw [foreign q other]
            exact before.counter
          · rw [foreign q other]
            exact before.table
          · rw [foreign q other,count]
            exact before.file
          · exact unseen
          · intro i below out
            rw [count] at below
            exact vacated i below out
        exact process
    · intro page inside
      rcases List.mem_cons.mp inside with rfl | before
      · refine ⟨frame,Finset.mem_insert_self _ _,?_⟩
        have framed := loaded.framed
        rw [← newEntry] at framed
        exact framed
      · obtain ⟨other,ours,framed⟩ := follows.framed page before
        have kept : Framed (keptLines (texts page.1)) m' (k1.entry page) page other := by
          rw [entries page (old page before)]
          refine framed.congr fun j less => loaded.frames _ fun clash => new ?_
          have equal : other = frame := by omega
          exact equal ▸ ours
        exact ⟨other,Finset.mem_insert_of_mem ours,kept⟩
    · intro x left y right same
      have equal : (k1.entry x).index 0 = (k1.entry y).index 0 := same
      rcases List.mem_cons.mp left with rfl | left
      · rcases List.mem_cons.mp right with rfl | right
        · rfl
        · exact absurd (equal.symm.trans newIndex) (oldIndex y right)
      · rcases List.mem_cons.mp right with rfl | right
        · exact absurd (equal.trans newIndex) (oldIndex x left)
        · rw [entries x (old x left),entries y (old y right)] at equal
          exact follows.apart x left y right equal
    · intro f ours
      rcases Finset.mem_insert.mp ours with rfl | before
      · exact ⟨_,List.mem_cons_self,newIndex⟩
      · obtain ⟨page,inside,start⟩ := follows.held f before
        exact ⟨page,List.mem_cons_of_mem _ inside,(congrArg (Page.index · 0) (entries page (old page inside))).trans start⟩
    · intro i below unused
      rw [Finset.mem_insert,not_or] at unused
      have same : m' i = k.memory i := loaded.frames i fun clash => unused.1 (by omega)
      exact (congrArg Slot.var same).trans (follows.free i below unused.2)
    · intro f ours
      rcases Finset.mem_insert.mp ours with rfl | before
      · exact room
      · exact follows.within f before
    · have same : ∀ i, border ≤ i → m' i = k.memory i := fun i beyond => loaded.frames i fun clash => by omega
      exact ⟨fun i beyond => (same i beyond).trans (follows.effects.slots i beyond),follows.effects.world⟩

theorem pageEvict_memory (m : Memory) (pcb : PCB) (i n : Nat) (place : (pcb.pageTable i).index = fun j => 3*frame + j) :
    (pageEvict m pcb i).1 n = if 3*frame ≤ n ∧ n < 3*frame + 3 then freeSlot else m n := by
  have slots : (pageEvict m pcb i).1 = memFreeAt (memFreeAt (memFreeAt m (3*frame)) (3*frame + 1)) (3*frame + 2) := by
    unfold pageEvict
    simp only [place]
    rfl
  rw [slots]
  unfold memFreeAt
  simp only [Function.update_apply]
  split
  · rw [if_pos (by omega)]
  · split
    · rw [if_pos (by omega)]
    · split
      · rw [if_pos (by omega)]
      · rw [if_neg (by omega)]

/-- The page used least recently leaves its frame. -/
theorem Follows.evict (follows : Follows border shell start texts pids used k s) {front : List (Nat × Nat)} {page : Nat × Nat}
    (split : s.resident = front ++ [page]) (distinct : s.resident.Nodup) (inside : page.1 ∈ pids) :
    ∃ k', ∃ frame ∈ used, evictVictim k = some k' ∧ k'.queue = k.queue ∧
      Follows border shell start texts pids (used.erase frame) k'
        {s with resident := front, history := .evicted page :: s.history} := by
  obtain ⟨p,i⟩ := page
  have member : (p,i) ∈ s.resident := split ▸ List.mem_append_right _ (List.mem_singleton_self _)
  have still : ∀ page ∈ front, page ∈ s.resident := fun page member => split ▸ List.mem_append_left _ member
  have apart := distinct
  rw [split,List.nodup_append] at apart
  have other : ∀ page ∈ front, page ≠ (p,i) := fun page member same =>
    apart.2.2 page member _ (List.mem_singleton_self _) same
  obtain ⟨frame,ours,framed⟩ := follows.framed _ member
  have memory (n : Nat) := pageEvict_memory k.memory (k.pcbs p) i n framed.index
  let k1 : Kernel W := {k with
    memory := (pageEvict k.memory (k.pcbs p) i).1
    pcbs := Function.update k.pcbs p (pageEvict k.memory (k.pcbs p) i).2
    lruCache := k.lruCache.dropLast
    history := .evicted (p,i) :: k.history}
  have evicted : evictVictim k = some k1 := by
    have last : k.lruCache.getLast? = some (p,i) := by rw [follows.lru,split,List.getLast?_concat]
    unfold evictVictim
    rw [last]
    exact if_pos ((follows.known p).mpr inside)
  have entries (page : Nat × Nat) (other : page ≠ (p,i)) : k1.entry page = k.entry page := by
    unfold Kernel.entry
    by_cases here : page.1 = p
    · rw [here]
      have own : k1.pcbs p = (pageEvict k.memory (k.pcbs p) i).2 := Function.update_self ..
      rw [own]
      exact Function.update_of_ne (fun same => other (Prod.ext here same)) ..
    · have foreign : k1.pcbs page.1 = k.pcbs page.1 := Function.update_of_ne here ..
      rw [foreign]
  have away : ∀ page ∈ front, ∀ f, (k.entry page).index 0 = 3*f → f ≠ frame := by
    intro page listed f start same
    have equal : (k.entry page).index 0 = (k.entry (p,i)).index 0 := by
      rw [start,same]
      exact (congrFun framed.index 0).symm
    exact other page listed (follows.apart page (still page listed) _ member equal)
  refine ⟨k1,frame,ours,evicted,rfl,?_⟩
  constructor
  · exact follows.queue
  · have cache : k.lruCache.dropLast = front := by rw [follows.lru,split,List.dropLast_concat]
    exact cache
  · exact congrArg (_ :: ·) follows.history
  · exact follows.known
  · intro q queued
    have before := follows.runs q queued
    have unseen (i' : Nat) (out : (q,i') ∉ front) (j : Nat) (less : j < 3) : ((k1.pcbs q).pageTable i').validBit j = false := by
      by_cases gone : (q,i') = (p,i)
      · obtain ⟨rfl,rfl⟩ := Prod.mk.inj gone
        have own : k1.pcbs q = (pageEvict k.memory (k.pcbs q) i').2 := Function.update_self ..
        rw [own]
        unfold pageEvict
        simp only [Function.update_self]
        exact if_pos less
      · have same : k1.entry (q,i') = k.entry (q,i') := entries _ gone
        refine (congrArg (Page.validBit · j) same).trans (before.missing i' ?_ j less)
        rw [split,List.mem_append,List.mem_singleton]
        exact not_or.mpr ⟨out,gone⟩
    have vacated (i' : Nat) (below : i' < s.loaded q) (out : (q,i') ∉ front) (j : Nat) (less : j < 3) :
        ((k1.pcbs q).pageTable i').index j = 0 := by
      by_cases gone : (q,i') = (p,i)
      · obtain ⟨rfl,rfl⟩ := Prod.mk.inj gone
        have own : k1.pcbs q = (pageEvict k.memory (k.pcbs q) i').2 := Function.update_self ..
        rw [own]
        unfold pageEvict
        simp only [Function.update_self]
        exact if_pos less
      · have same : k1.entry (q,i') = k.entry (q,i') := entries _ gone
        refine (congrArg (Page.index · j) same).trans (before.gone i' below ?_ j less)
        rw [split,List.mem_append,List.mem_singleton]
        exact not_or.mpr ⟨out,gone⟩
    have process : RunsAs (texts q) {s with resident := front, history := .evicted (p,i) :: s.history} q (k1.pcbs q) := by
      rcases eq_or_ne q p with rfl | foreign
      · have own : k1.pcbs q = (pageEvict k.memory (k.pcbs q) i).2 := Function.update_self ..
        rw [own]
        exact ⟨before.pid,before.size,before.counter,before.table,before.file,own ▸ unseen,own ▸ vacated⟩
      · have own : k1.pcbs q = k.pcbs q := Function.update_of_ne foreign ..
        rw [own]
        exact ⟨before.pid,before.size,before.counter,before.table,before.file,own ▸ unseen,own ▸ vacated⟩
    exact process
  · intro page listed
    obtain ⟨f,mine,held⟩ := follows.framed page (still page listed)
    have different := away page listed f (congrFun held.index 0)
    have kept : Framed (keptLines (texts page.1)) k1.memory (k1.entry page) page f := by
      rw [entries page (other page listed)]
      refine held.congr fun j less => (memory _).trans (if_neg ?_)
      omega
    exact ⟨f,Finset.mem_erase.mpr ⟨different,mine⟩,kept⟩
  · intro x left y right same
    rw [entries x (other x left),entries y (other y right)] at same
    exact follows.apart x (still x left) y (still y right) same
  · intro f mine
    obtain ⟨different,before⟩ := Finset.mem_erase.mp mine
    obtain ⟨page,listed,start⟩ := follows.held f before
    have remains : page ∈ front := by
      rw [split] at listed
      refine (List.mem_append.mp listed).resolve_right fun single => different ?_
      rw [List.mem_singleton.mp single] at start
      have first : (k.entry (p,i)).index 0 = 3*frame + 0 := congrFun framed.index 0
      omega
    exact ⟨page,remains,(congrArg (Page.index · 0) (entries page (other page remains))).trans start⟩
  · intro n below unused
    have free : k1.memory n = if 3*frame ≤ n ∧ n < 3*frame + 3 then freeSlot else k.memory n := memory n
    rw [free]
    split
    · rfl
    · refine follows.free n below fun mine => unused (Finset.mem_erase.mpr ⟨?_,mine⟩)
      omega
  · exact fun f mine => follows.within f (Finset.mem_of_mem_erase mine)
  · have below := follows.within frame ours
    have same : ∀ i, border ≤ i → k1.memory i = k.memory i := fun i beyond => (memory i).trans (if_neg (by omega))
    exact ⟨fun i beyond => (same i beyond).trans (follows.effects.slots i beyond),follows.effects.world⟩

/-- What a page fault leaves in use. -/
theorem serveFault_eq (frames : Nat) (s : Progress) (p : Nat) :
    serveFault frames s p = {loadNext (roomFor frames s) p with queue := s.queue ++ [p]} := by
  unfold serveFault loadNext roomFor
  split <;> rfl

/-- A page fault of the current page. -/
theorem Follows.fault (follows : Follows border shell start texts pids (Finset.range s.resident.length) k s)
    (sound : Sound (border/3) (scripts texts) pids s) (member : p ∈ pids) (short : ShortLines (texts p))
    (unfinished : s.done p < (scripts texts p).length) (missing : s.loaded p = s.done p/3) (some : 0 < border/3) :
    ∃ k', runCurrent border shell k p = Option.some (true,k') ∧
      Follows border shell start texts pids (Finset.range (serveFault (border/3) s p).resident.length) k' (serveFault (border/3) s p) := by
  have runs := follows.runs p member
  obtain ⟨current,inside,counter⟩ := runs.current unfinished
  rw [← missing] at current inside counter
  have small : s.done p % 3 < 3 := Nat.mod_lt _ (by decide)
  have fresh : (p,s.loaded p) ∉ s.resident := fun old => Nat.lt_irrefl _ (sound.known _ old).2
  have invalid := runs.missing _ fresh _ small
  have room := sound.room
  have served : ∃ k', pageFault border k p (s.loaded p) = Option.some k' ∧
      Follows border shell start texts pids (Finset.range (serveFault (border/3) s p).resident.length) k' (serveFault (border/3) s p) := by
    rw [serveFault_eq]
    by_cases space : s.resident.length < border/3
    · -- the first frame behind those in use
      have same : roomFor (border/3) s = s := if_pos space
      obtain ⟨k1,loaded,queue,cache,after⟩ := follows.load member short fresh Finset.notMem_range_self
        (fun f less => Finset.mem_range.mpr less) (by omega)
      refine ⟨{k1 with lruCache := (p,s.loaded p) :: k1.lruCache, queue := k1.queue ++ [p]},?_,?_⟩
      · unfold pageFault
        rw [loaded]
        rfl
      · rw [same]
        rw [← Finset.range_add_one] at after
        have queues : k1.queue = s.queue := queue.trans follows.queue
        rw [queues]
        exact after.requeue (s.queue ++ [p])
    · -- the frame that the evicted page had
      have full : s.resident.length = border/3 := Nat.le_antisymm room (Nat.le_of_not_lt space)
      rcases List.eq_nil_or_concat s.resident with none | ⟨front,page,split⟩
      · rw [none] at full
        exact absurd full (Nat.ne_of_lt some)
      · rw [List.concat_eq_append] at split
        have length : front.length + 1 = s.resident.length := by rw [split,List.length_append,List.length_singleton]
        have listed : page ∈ s.resident := split ▸ List.mem_append_right _ (List.mem_singleton_self _)
        obtain ⟨k1,frame,ours,evicted,queue,after⟩ := follows.evict split sound.distinct (sound.known page listed).1
        have same : roomFor (border/3) s = {s with resident := front, history := .evicted page :: s.history} := by
          unfold roomFor
          rw [if_neg space,split,List.dropLast_concat,List.getLast?_concat]
          rfl
        have none : Demand.load border k p (s.loaded p) = Option.none := by
          unfold Demand.load loadPage
          rw [frameAlloc_none border k.memory _ (3*(border/3)) (by omega) fun j less =>
            follows.occupied j (Finset.mem_range.mpr (by omega))]
          rfl
        have below := Finset.mem_range.mp ours
        -- the frames before the hole are in use
        have absent : (p,s.loaded p) ∉ front := fun old => fresh (split ▸ List.mem_append_left _ old)
        have before : ∀ f < frame, f ∈ (Finset.range s.resident.length).erase frame := fun f less =>
          Finset.mem_erase.mpr ⟨Nat.ne_of_lt less,Finset.mem_range.mpr (less.trans below)⟩
        obtain ⟨k2,loaded,queue2,cache,whole⟩ := after.load member short absent (Finset.notMem_erase _ _) before (by omega)
        refine ⟨{k2 with lruCache := (p,s.loaded p) :: k2.lruCache, queue := k2.queue ++ [p]},?_,?_⟩
        · have reloaded : Demand.load border k1 p (s.loaded p) = Option.some k2 := loaded
          unfold pageFault
          rw [none,evicted]
          simp only [Option.bind_eq_bind,Option.bind_some,Option.pure_def,reloaded,Option.getD_some]
        · rw [same]
          rw [Finset.insert_erase ours] at whole
          have kept : (loadNext {s with resident := front, history := .evicted page :: s.history} p).resident.length =
              s.resident.length := length
          rw [← kept] at whole
          have queues : k2.queue = s.queue := queue2.trans (queue.trans follows.queue)
          rw [queues]
          exact whole.requeue (s.queue ++ [p])
  obtain ⟨k',fault,after⟩ := served
  refine ⟨k',?_,after⟩
  unfold runCurrent
  simp only [current,counter]
  rw [if_pos ⟨inside,small⟩]
  unfold runProc cpuRun
  simp only [counter,invalid,Bool.false_eq_true,if_false,if_true,fault]
  rfl

end
end MyShell.Demand
