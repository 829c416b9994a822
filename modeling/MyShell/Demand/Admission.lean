import Mathlib.Algebra.BigOperators.Intervals
import Mathlib.Order.Interval.Finset.Nat
import MyShell.Demand.RoundRobin

/-! `new_proc` loads the first pages of each script and puts it into the ready queue. -/
namespace MyShell.Demand
open RecencyList TextFile

/-- The script has the lines that its process counts, and they fit the buffer. -/
structure Counted (text : Text) : Prop where
  short : ShortLines text
  counted : countLines text = (lines text).length

instance (text : Text) : Decidable (Counted text) :=
  decidable_of_iff (ShortLines text ∧ countLines text = (lines text).length)
    ⟨fun both => ⟨both.1,both.2⟩,fun counted => ⟨counted.short,counted.counted⟩⟩

/-- A new process with its first `count` pages. -/
def admission (s : Progress) (p : Nat) : Nat → Progress
  | 0 => {s with queue := s.queue ++ [p]}
  | count+1 => loadNext (admission s p count) p

/-- No process has executed a line. -/
structure Started (frames : Nat) (script : Nat → List Text) (pids : Finset Nat) (s : Progress) : Prop where
  sound : Sound frames script pids s
  recorded : Recorded script s
  still : ∀ p, s.done p = 0
  unknown : ∀ p ∉ pids, s.loaded p = 0
  queued : ∀ p ∈ pids, p ∈ s.queue
  counted : s.resident.length = ∑ p ∈ pids, share script p

section
variable {frames : Nat} {script : Nat → List Text} {pids : Finset Nat} {s : Progress} {p : Nat}

theorem admission_done (count : Nat) : (admission s p count).done = s.done := by
  induction count with
  | zero => rfl
  | succ count ih => exact ih

theorem admission_queue (count : Nat) : (admission s p count).queue = s.queue ++ [p] := by
  induction count with
  | zero => rfl
  | succ count ih => exact ih

theorem admission_loaded (count : Nat) : (admission s p count).loaded = Function.update s.loaded p (s.loaded p + count) := by
  induction count with
  | zero => exact (Function.update_eq_self ..).symm
  | succ count ih =>
    have next : (admission s p (count+1)).loaded =
        Function.update (admission s p count).loaded p ((admission s p count).loaded p + 1) := rfl
    rw [next,ih,Function.update_idem,Function.update_self]
    rfl

theorem admission_resident (fresh : s.loaded p = 0) (count : Nat) :
    (admission s p count).resident = ((List.range count).map fun i => (p,i)).reverse ++ s.resident := by
  induction count with
  | zero => rfl
  | succ count ih =>
    have next : (admission s p (count+1)).resident = (p,(admission s p count).loaded p) :: (admission s p count).resident := rfl
    rw [next,ih,admission_loaded,Function.update_self,fresh,Nat.zero_add,List.range_succ,List.map_append,List.reverse_append]
    rfl

theorem admission_history (fresh : s.loaded p = 0) (count : Nat) :
    (admission s p count).history = (((List.range count).map fun i => (p,i)).map Event.loaded).reverse ++ s.history := by
  induction count with
  | zero => rfl
  | succ count ih =>
    have next : (admission s p (count+1)).history =
        .loaded (p,(admission s p count).loaded p) :: (admission s p count).history := rfl
    rw [next,ih,admission_loaded,Function.update_self,fresh,Nat.zero_add,List.range_succ,List.map_append,List.map_append,
      List.reverse_append]
    rfl

namespace Started

theorem absent (started : Started frames script pids s) (new : p ∉ pids) (i : Nat) : (p,i) ∉ s.resident := fun old =>
  new (started.sound.known _ old).1

theorem fresh (started : Started frames script pids s) (new : p ∉ pids) (count : Nat) :
    (p,(admission s p count).loaded p) ∉ (admission s p count).resident := by
  rw [admission_loaded,Function.update_self,admission_resident (started.unknown p new),started.unknown p new,Nat.zero_add]
  intro old
  rcases List.mem_append.mp old with own | before
  · obtain ⟨i,inside,same⟩ := List.mem_map.mp (List.mem_reverse.mp own)
    exact absurd (Prod.mk.inj same).2 (Nat.ne_of_lt (List.mem_range.mp inside))
  · exact started.absent new count before

theorem admitted_recorded (started : Started frames script pids s) (new : p ∉ pids) (count : Nat)
    (few : count ≤ share script p) : Recorded script (admission s p count) := by
  induction count with
  | zero => exact started.recorded.withQueue _
  | succ count ih =>
    refine (ih (Nat.le_of_succ_le few)).load p ?_ (started.fresh new count)
    rw [admission_loaded,Function.update_self,started.unknown p new,Nat.zero_add]
    exact few.trans (Nat.min_le_right _ _)

theorem admission (started : Started frames script pids s) (new : p ∉ pids)
    (room : s.resident.length + share script p ≤ frames) :
    Started frames script (insert p pids) (admission s p (share script p)) := by
  have unknown := started.unknown p new
  have loaded (q : Nat) : (Demand.admission s p (share script p)).loaded q = if q = p then share script p else s.loaded q := by
    rw [admission_loaded,Function.update_apply,unknown,Nat.zero_add]
  have done (q : Nat) : (Demand.admission s p (share script p)).done q = 0 := by
    rw [admission_done]
    exact started.still q
  have resident := admission_resident unknown (share script p)
  have length : (Demand.admission s p (share script p)).resident.length = s.resident.length + share script p := by
    rw [resident,List.length_append,List.length_reverse,List.length_map,List.length_range,Nat.add_comm]
  have member (page : Nat × Nat) : page ∈ (Demand.admission s p (share script p)).resident ↔
      (page.1 = p ∧ page.2 < share script p) ∨ page ∈ s.resident := by
    rw [resident,List.mem_append,List.mem_reverse,List.mem_map]
    refine or_congr_left ⟨?_,?_⟩
    · rintro ⟨i,inside,rfl⟩
      exact ⟨rfl,List.mem_range.mp inside⟩
    · rintro ⟨rfl,inside⟩
      exact ⟨page.2,List.mem_range.mpr inside,rfl⟩
  have queue := admission_queue (s := s) (p := p) (share script p)
  have away : p ∉ s.queue := fun old => new (started.sound.queued p old)
  have sound : Sound frames script (insert p pids) (Demand.admission s p (share script p)) := by
    constructor
    · intro q inside
      rcases eq_or_ne q p with rfl | other
      · constructor
        · rw [done]
          exact Nat.zero_le _
        · rw [done]
          exact Nat.zero_le _
        · rw [loaded,if_pos rfl]
        · rw [loaded,if_pos rfl]
          exact Nat.min_le_right _ _
        · rw [loaded,if_pos rfl]
          exact (Nat.min_le_left _ _).trans (Nat.le_max_left _ _)
      · obtain ⟨within,covered,least,most,ahead⟩ := started.sound.loaded q (Finset.mem_of_mem_insert_of_ne inside other)
        constructor
        · rw [done]
          exact Nat.zero_le _
        · rw [done]
          exact Nat.zero_le _
        · rw [loaded,if_neg other]
          exact least
        · rw [loaded,if_neg other]
          exact most
        · rw [loaded,if_neg other,done]
          rw [started.still] at ahead
          exact ahead
    · intro q queued
      rw [queue] at queued
      rcases List.mem_append.mp queued with before | last
      · exact Finset.mem_insert_of_mem (started.sound.queued q before)
      · exact List.mem_singleton.mp last ▸ Finset.mem_insert_self _ _
    · rw [queue]
      exact List.nodup_append.mpr ⟨started.sound.once,List.nodup_singleton _,fun a inside b last =>
        List.mem_singleton.mp last ▸ fun equal => away (equal ▸ inside)⟩
    · rw [resident]
      refine List.nodup_append.mpr ⟨?_,started.sound.distinct,?_⟩
      · exact List.nodup_reverse.mpr (List.nodup_range.map fun i j same => (Prod.mk.inj same).2)
      · rintro a own b before rfl
        obtain ⟨i,_,rfl⟩ := List.mem_map.mp (List.mem_reverse.mp own)
        exact started.absent new i before
    · rw [length]
      exact room
    · intro page inside
      rcases (member page).mp inside with ⟨own,below⟩ | before
      · rw [own,loaded,if_pos rfl]
        exact ⟨Finset.mem_insert_self _ _,below⟩
      · have known := started.sound.known page before
        have other : page.1 ≠ p := fun same => new (same ▸ known.1)
        rw [loaded,if_neg other]
        exact ⟨Finset.mem_insert_of_mem known.1,known.2⟩
    · intro q inside i need
      obtain ⟨below,unfinished,inPage⟩ := need
      simp only [loaded] at below
      refine (member _).mpr ?_
      by_cases own : q = p
      · rw [if_pos own] at below
        exact Or.inl ⟨own,below⟩
      · rw [if_neg own] at below
        simp only [done] at unfinished inPage
        refine Or.inr (started.sound.needed q (Finset.mem_of_mem_insert_of_ne inside own) i ⟨below,?_,?_⟩)
        · rw [started.still]
          exact unfinished
        · rw [started.still]
          exact inPage
  constructor
  · exact sound
  · exact started.admitted_recorded new _ (Nat.le_refl _)
  · exact done
  · intro q outside
    rw [Finset.mem_insert,not_or] at outside
    rw [loaded,if_neg outside.1]
    exact started.unknown q outside.2
  · intro q inside
    rw [queue]
    rcases Finset.mem_insert.mp inside with rfl | before
    · exact List.mem_append_right _ (List.mem_singleton_self _)
    · exact List.mem_append_left _ (started.queued q before)
  · rw [length,Finset.sum_insert new,started.counted,Nat.add_comm]

theorem first (started : Started frames script pids s) (q : Nat) (inside : q ∈ pids) : s.loaded q = share script q := by
  obtain ⟨_,_,least,most,ahead⟩ := started.sound.loaded q inside
  rw [started.still] at ahead
  exact Nat.le_antisymm (Nat.le_min.mpr ⟨ahead,most⟩) least

theorem steady (started : Started frames script pids s) : Steady frames script pids s := by
  have idle (q : Nat) : ¬Current script s q := by
    rintro ⟨_,late,_⟩
    rw [started.still] at late
    exact absurd late (by decide)
  refine ⟨started.sound,?_,?_,?_,?_,?_,?_⟩
  · exact fun q inside absent _ => absurd (started.queued q inside) absent
  · intro q _ _ _
    rw [started.still]
  · refine List.Pairwise.imp_of_mem (fun _ _ _ => ?_) started.sound.once
    intro _ _
    rw [started.still,started.still]
    exact ⟨Nat.le_refl _,by decide⟩
  · exact fun q _ current => absurd current (idle q)
  · exact fun q _ current => absurd current (idle q)
  · exact List.Pairwise.imp_of_mem (fun _ _ _ current => absurd current (idle _)) started.sound.once

end Started
end

section
variable {W : Type} {border : Nat} {shell : Shell W} {start : Memory × W} {texts : Nat → Text} {pids : Finset Nat}
  {k : Kernel W} {s : Progress} {p : Nat}

/-- The kernel when `PCB_init` has loaded `count` pages of a new process. -/
def admitting (k : Kernel W) (p : Nat) (stored : Memory × PCB) (count : Nat) : Kernel W :=
  {k with
    memory := stored.1
    pcbs := Function.update k.pcbs p stored.2
    allPcb := k.allPcb ++ [p]
    queue := k.queue ++ [p]
    lruCache := ((List.range count).map fun i => (p,i)).reverse ++ k.lruCache
    history := (((List.range count).map fun i => (p,i)).map Event.loaded).reverse ++ k.history}

theorem newPCB_runs (counted : Counted (texts p)) (still : s.done p = 0) (unknown : s.loaded p = 0) :
    RunsAs (texts p) s p (newPCB p (texts p)) := by
  have length : countLines (texts p) = (keptLines (texts p)).length := by
    rw [counted.counted,keptLines,List.length_map]
  constructor
  · rfl
  · rw [still,← length]
    exact (Int.sub_zero _).symm
  · intro i _
    rw [still,Nat.zero_sub]
    rfl
  · rw [← length]
    rfl
  · rw [unknown]
    rfl
  · exact fun _ _ _ _ => rfl
  · intro i below
    rw [unknown] at below
    exact absurd below (Nat.not_lt_zero i)

theorem admitting_zero (follows : Holds border shell start texts pids k s) (started : Started (border/3) (scripts texts) pids s)
    (new : p ∉ pids) (counted : Counted (texts p)) :
    Holds border shell start texts (insert p pids) (admitting k p (k.memory,newPCB p (texts p)) 0) (admission s p 0) := by
  have other : ∀ q ∈ pids, q ≠ p := fun q inside same => new (same ▸ inside)
  have entries : ∀ page ∈ s.resident, (admitting k p (k.memory,newPCB p (texts p)) 0).entry page = k.entry page := by
    intro page inside
    have foreign : Function.update k.pcbs p (newPCB p (texts p)) page.1 = k.pcbs page.1 :=
      Function.update_of_ne (other _ (started.sound.known page inside).1) ..
    exact congrArg (fun pcb : PCB => pcb.pageTable page.2) foreign
  constructor
  · exact congrArg (· ++ [p]) follows.queue
  · exact follows.lru
  · exact follows.history
  · intro q
    refine List.mem_append.trans ?_
    rw [List.mem_singleton,Finset.mem_insert,follows.known q]
    exact or_comm
  · intro q inside
    rcases Finset.mem_insert.mp inside with rfl | before
    · have own : (admitting k q (k.memory,newPCB q (texts q)) 0).pcbs q = newPCB q (texts q) := Function.update_self ..
      rw [own]
      exact newPCB_runs counted (started.still q) (started.unknown q new)
    · have foreign : (admitting k p (k.memory,newPCB p (texts p)) 0).pcbs q = k.pcbs q :=
        Function.update_of_ne (other q before) ..
      rw [foreign]
      obtain ⟨pid,size,counter,table,file,missing,gone⟩ := follows.runs q before
      exact ⟨pid,size,counter,table,file,missing,gone⟩
  · intro page inside
    rw [entries page inside]
    exact follows.framed page inside
  · intro x left y right same
    rw [entries x left,entries y right] at same
    exact follows.apart x left y right same
  · intro frame ours
    obtain ⟨page,inside,start⟩ := follows.held frame ours
    exact ⟨page,inside,(congrArg (Page.index · 0) (entries page inside)).trans start⟩
  · exact follows.free
  · exact follows.within
  · exact follows.effects

/-- Each load of `PCB_init` takes the first frame behind those in use. -/
theorem admitting_follows (follows : Holds border shell start texts pids k s) (started : Started (border/3) (scripts texts) pids s)
    (new : p ∉ pids) (counted : Counted (texts p)) (count : Nat) (stored : Memory × PCB)
    (loads : (List.range count).foldlM (fun stored i => loadPage border stored.1 stored.2 i) (k.memory,newPCB p (texts p)) =
      some stored) : Holds border shell start texts (insert p pids) (admitting k p stored count) (admission s p count) := by
  induction count generalizing stored with
  | zero =>
    obtain rfl := Option.some.inj loads
    exact admitting_zero follows started new counted
  | succ count ih =>
    rw [List.range_succ,List.foldlM_append] at loads
    obtain ⟨before,first,last⟩ := Option.bind_eq_some_iff.mp loads
    rw [List.foldlM_cons] at last
    obtain ⟨after,loaded,same⟩ := Option.bind_eq_some_iff.mp last
    obtain rfl := Option.some.inj same
    have held := ih before first
    have place : (admission s p count).loaded p = count := by
      rw [admission_loaded,Function.update_self,started.unknown p new,Nat.zero_add]
    have own : (admitting k p before count).pcbs p = before.2 := Function.update_self ..
    have room : 3*(admission s p count).resident.length + 3 ≤ border := by
      by_contra narrow
      have none : loadPage border before.1 before.2 count = none := by
        unfold loadPage
        rw [frameAlloc_none border before.1 _ (3*(admission s p count).resident.length) (by omega) fun j less =>
          held.occupied j (Finset.mem_range.mpr (by omega))]
        rfl
      rw [none] at loaded
      exact absurd loaded (Option.some_ne_none _).symm
    obtain ⟨k1,done,_,_,next⟩ := held.load (Finset.mem_insert_self p pids) counted.short (started.fresh new count)
      Finset.notMem_range_self (fun f less => Finset.mem_range.mpr less) room
    rw [← Finset.range_add_one] at next
    have result : load border (admitting k p before count) p count = some {admitting k p before count with
        memory := after.1
        pcbs := Function.update (admitting k p before count).pcbs p after.2
        history := .loaded (p,count) :: (admitting k p before count).history} := by
      unfold load
      rw [own]
      have stored : loadPage border (admitting k p before count).memory before.2 count = some after := loaded
      rw [stored]
      rfl
    rw [place] at done next
    obtain rfl := Option.some.inj (done.symm.trans result)
    have whole : admitting k p after (count+1) = {admitting k p before count with
        memory := after.1
        pcbs := Function.update (admitting k p before count).pcbs p after.2
        lruCache := (p,count) :: (admitting k p before count).lruCache
        history := .loaded (p,count) :: (admitting k p before count).history} := by
      unfold admitting
      simp only [Function.update_idem,List.range_succ,List.map_append,List.reverse_append]
      rfl
    rw [whole]
    exact next

theorem newPCB_pages (counted : Counted (texts p)) :
    (newPCB p (texts p)).pageTableSize = pagesOf (scripts texts p).length := by
  have length : countLines (texts p) = (scripts texts p).length := by
    rw [counted.counted,scripts,keptLines,List.length_map]
  rw [← length]
  rfl

theorem firstPages_eq (pcb : PCB) (size : pcb.pageTableSize = pagesOf (scripts texts p).length) :
    firstPages pcb = List.range (share (scripts texts) p) := by
  unfold firstPages share
  rw [size]
  refine congrArg List.range ?_
  split <;> omega

theorem loadPage_size {m : Memory} {pcb : PCB} {i : Nat} {stored : Memory × PCB}
    (loaded : loadPage border m pcb i = some stored) : stored.2.pageTableSize = pcb.pageTableSize := by
  unfold loadPage at loaded
  obtain ⟨frame,_,same⟩ := Option.map_eq_some_iff.mp loaded
  rw [← same]

/-- `PCB_init` finds a frame for each of its pages if there are enough. -/
theorem pcbInit_fits (follows : Holds border shell start texts pids k s)
    (started : Started (border/3) (scripts texts) pids s) (new : p ∉ pids) (counted : Counted (texts p)) (count : Nat)
    (fits : s.resident.length + count ≤ border/3) :
    ∃ stored, (List.range count).foldlM (fun stored i => loadPage border stored.1 stored.2 i)
      (k.memory,newPCB p (texts p)) = some stored := by
  induction count with
  | zero => exact ⟨_,rfl⟩
  | succ count ih =>
    obtain ⟨before,first⟩ := ih (Nat.le_of_succ_le fits)
    have held := admitting_follows follows started new counted count before first
    have place : (admission s p count).loaded p = count := by
      rw [admission_loaded,Function.update_self,started.unknown p new,Nat.zero_add]
    have length : (admission s p count).resident.length = s.resident.length + count := by
      rw [admission_resident (started.unknown p new),List.length_append,List.length_reverse,List.length_map,List.length_range,
        Nat.add_comm]
    have own : (admitting k p before count).pcbs p = before.2 := Function.update_self ..
    obtain ⟨k1,done,_⟩ := held.load (Finset.mem_insert_self p pids) counted.short (started.fresh new count)
      Finset.notMem_range_self (fun f less => Finset.mem_range.mpr less) (by omega)
    rw [place] at done
    unfold load at done
    rw [own] at done
    obtain ⟨stored,loaded,_⟩ := Option.map_eq_some_iff.mp done
    have last : loadPage border before.1 before.2 count = some stored := loaded
    refine ⟨stored,?_⟩
    rw [List.range_succ,List.foldlM_append,first]
    simp only [Option.bind_eq_bind,Option.bind_some,List.foldlM_cons,last]
    rfl

/-- A process that `new_proc` has started, its first pages in frames of their own. -/
theorem newProc_started {k' : Kernel W} {text : Text} (follows : Holds border shell start texts pids k s)
    (started : Started (border/3) (scripts texts) pids s) (new : k.pidCounter ∉ pids) (named : texts k.pidCounter = text)
    (counted : Counted text) (done : newProc border k text = some k') :
    Holds border shell start texts (insert k.pidCounter pids) k' (admission s k.pidCounter (share (scripts texts) k.pidCounter)) ∧
      Started (border/3) (scripts texts) (insert k.pidCounter pids)
        (admission s k.pidCounter (share (scripts texts) k.pidCounter)) ∧ k'.pidCounter = k.pidCounter + 1 := by
  subst named
  obtain ⟨stored,loads,same⟩ := Option.bind_eq_some_iff.mp done
  have pages := newPCB_pages (p := k.pidCounter) counted
  unfold pcbInit at loads
  rw [firstPages_eq _ pages] at loads
  have size : ∀ (count : Nat) (stored : Memory × PCB), (List.range count).foldlM (fun stored i =>
      loadPage border stored.1 stored.2 i) (k.memory,newPCB k.pidCounter (texts k.pidCounter)) = some stored →
      stored.2.pageTableSize = pagesOf (scripts texts k.pidCounter).length := by
    intro count
    induction count with
    | zero =>
      intro stored same
      obtain rfl := Option.some.inj same
      exact pages
    | succ count ih =>
      intro stored loads
      rw [List.range_succ,List.foldlM_append] at loads
      obtain ⟨before,front,last⟩ := Option.bind_eq_some_iff.mp loads
      rw [List.foldlM_cons] at last
      obtain ⟨after,loaded,same⟩ := Option.bind_eq_some_iff.mp last
      obtain rfl := Option.some.inj same
      exact (loadPage_size loaded).trans (ih before front)
  have held := admitting_follows follows started new counted _ stored loads
  have room : s.resident.length + share (scripts texts) k.pidCounter ≤ border/3 := by
    have length : (admission s k.pidCounter (share (scripts texts) k.pidCounter)).resident.length =
        s.resident.length + share (scripts texts) k.pidCounter := by
      rw [admission_resident (started.unknown _ new),List.length_append,List.length_reverse,List.length_map,List.length_range,
        Nat.add_comm]
    rcases Nat.eq_zero_or_pos (s.resident.length + share (scripts texts) k.pidCounter) with zero | positive
    · rw [zero]
      exact Nat.zero_le _
    · have within := held.within (s.resident.length + share (scripts texts) k.pidCounter - 1) (by
        rw [length,Finset.mem_range]
        omega)
      omega
  have after := started.admission new room
  have equal := Option.some.inj same
  rw [firstPages_eq _ (size _ stored loads)] at equal
  refine ⟨?_,after,?_⟩
  · rw [← equal]
    obtain ⟨queue,lru,history,known,runs,framed,apart,kept,free,within,effects⟩ := held
    exact ⟨queue,lru,history,known,runs,framed,apart,kept,free,within,effects⟩
  · rw [← equal]

theorem newProc_fits {text : Text} (follows : Holds border shell start texts pids k s)
    (started : Started (border/3) (scripts texts) pids s) (new : k.pidCounter ∉ pids) (named : texts k.pidCounter = text)
    (counted : Counted text) (fits : s.resident.length + share (scripts texts) k.pidCounter ≤ border/3) :
    ∃ k', newProc border k text = some k' := by
  subst named
  obtain ⟨stored,loads⟩ := pcbInit_fits follows started new counted _ fits
  have pages : firstPages (newPCB k.pidCounter (texts k.pidCounter)) = List.range (share (scripts texts) k.pidCounter) :=
    firstPages_eq _ (newPCB_pages counted)
  unfold newProc pcbInit
  rw [pages,loads]
  exact ⟨_,rfl⟩

/-- Nothing has been started. -/
def idle : Progress := ⟨fun _ => 0,fun _ => 0,[],[],[]⟩

/-- Between the commands the kernel is empty: its lists, and the frames. -/
structure EmptyKernel (border : Nat) (k : Kernel W) : Prop where
  queue : k.queue = []
  lru : k.lruCache = []
  none : k.allPcb = []
  free : ∀ i < border, (k.memory i).var = noneText

theorem kernelSetup_empty (border : Nat) (world : W) : EmptyKernel border (kernelSetup world) :=
  ⟨rfl,rfl,rfl,fun _ _ => rfl⟩

theorem EmptyKernel.holds (empty : EmptyKernel border k) :
    Holds border shell (k.memory,k.world) texts ∅ {k with history := []} idle where
  queue := empty.queue
  lru := empty.lru
  history := rfl
  known p := by
    rw [empty.none]
    exact ⟨fun inside => absurd inside List.not_mem_nil,fun inside => absurd inside (Finset.notMem_empty _)⟩
  runs _ inside := absurd inside (Finset.notMem_empty _)
  framed _ inside := absurd inside List.not_mem_nil
  apart _ inside := absurd inside List.not_mem_nil
  held _ ours := absurd ours (Finset.notMem_empty _)
  free i below _ := empty.free i below
  within _ ours := absurd ours (Finset.notMem_empty _)
  effects := ⟨fun _ _ => rfl,rfl⟩

theorem idle_started (frames : Nat) (script : Nat → List Text) : Started frames script ∅ idle where
  sound :=
    { loaded := fun _ inside => absurd inside (Finset.notMem_empty _)
      queued := fun _ inside => absurd inside List.not_mem_nil
      once := List.nodup_nil
      distinct := List.nodup_nil
      room := Nat.zero_le _
      known := fun _ inside => absurd inside List.not_mem_nil
      needed := fun _ inside => absurd inside (Finset.notMem_empty _) }
  recorded :=
    { within := fun _ => Nat.zero_le _
      most := fun _ => Nat.zero_le _
      executed := fun _ => rfl
      loaded := fun _ => rfl
      recent := List.Pairwise.nil
      used := fun _ inside => absurd inside List.not_mem_nil
      kept := fun _ => Iff.rfl
      once := List.nodup_nil
      evicts := fun newer _ _ split => absurd split.symm (List.append_ne_nil_of_right_ne_nil newer (List.cons_ne_nil _ _)) }
  still _ := rfl
  unknown _ _ := rfl
  queued _ inside := absurd inside (Finset.notMem_empty _)
  counted := rfl

/-- The script of a process, where the processes are counted from `first` on. -/
def scriptOf (texts : List Text) (first p : Nat) : Text := if first ≤ p then texts.getD (p-first) [] else []

theorem scriptOf_add (texts : List Text) (first i : Nat) : scriptOf texts first (first+i) = texts.getD i [] := by
  unfold scriptOf
  rw [if_pos (Nat.le_add_right _ _),Nat.add_sub_cancel_left]

theorem scriptOf_mem {texts : List Text} {first : Nat} (inside : p ∈ Finset.Ico first (first + texts.length)) :
    scriptOf texts first p ∈ texts := by
  obtain ⟨least,less⟩ := Finset.mem_Ico.mp inside
  obtain ⟨i,rfl⟩ := Nat.exists_eq_add_of_le least
  rw [scriptOf_add,List.getD_eq_getElem _ _ (Nat.lt_of_add_lt_add_left less)]
  exact List.getElem_mem _

theorem scriptOf_none {texts : List Text} {first : Nat} (outside : p ∉ Finset.Ico first (first + texts.length)) :
    scriptOf texts first p = [] := by
  unfold scriptOf
  split
  · rename_i least
    refine List.getD_eq_default _ _ ?_
    rw [Finset.mem_Ico,not_and,Nat.not_lt] at outside
    have beyond := outside least
    omega
  · rfl

theorem sum_scripts (measure : Text → Nat) (texts : List Text) (first : Nat) :
    ∑ p ∈ Finset.Ico first (first + texts.length), measure (scriptOf texts first p) = (texts.map measure).sum := by
  induction texts using List.reverseRecOn with
  | nil => rw [List.length_nil,Nat.add_zero,Finset.Ico_self,Finset.sum_empty,List.map_nil,List.sum_nil]
  | append_singleton texts text ih =>
    have old : ∀ p ∈ Finset.Ico first (first + texts.length),
        measure (scriptOf (texts ++ [text]) first p) = measure (scriptOf texts first p) := by
      intro p inside
      obtain ⟨least,less⟩ := Finset.mem_Ico.mp inside
      obtain ⟨i,rfl⟩ := Nat.exists_eq_add_of_le least
      rw [scriptOf_add,scriptOf_add,List.getD_append _ _ _ _ (Nat.lt_of_add_lt_add_left less)]
    have last : scriptOf (texts ++ [text]) first (first + texts.length) = text := by
      rw [scriptOf_add]
      exact (List.getD_append_right _ _ _ _ (Nat.le_refl _)).trans (by rw [Nat.sub_self]; rfl)
    rw [List.length_append,List.length_singleton,← Nat.add_assoc,Finset.sum_Ico_succ_top (Nat.le_add_right _ _),
      Finset.sum_congr rfl old,ih,last,List.map_append,List.sum_append,List.map_singleton,List.sum_singleton]

/-- The frames that the first pages of scripts take. -/
def firstFrames (texts : List Text) : Nat := (texts.map fun text => min 2 (pagesOf (lines text).length)).sum

theorem newProcs_started (shell : Shell W) (all : List Text) (first : Nat) (counted : ∀ text ∈ all, Counted text) (before rest : List Text)
    (split : before ++ rest = all) (k k' : Kernel W) (s : Progress)
    (follows : Holds border shell start (scriptOf all first) (Finset.Ico first (first + before.length)) k s)
    (started : Started (border/3) (scripts (scriptOf all first)) (Finset.Ico first (first + before.length)) s)
    (next : k.pidCounter = first + before.length) :
    (rest.foldlM (newProc border) k = some k' → ∃ s',
      Holds border shell start (scriptOf all first) (Finset.Ico first (first + all.length)) k' s' ∧
        Started (border/3) (scripts (scriptOf all first)) (Finset.Ico first (first + all.length)) s') ∧
      (s.resident.length + firstFrames rest ≤ border/3 → ∃ k', rest.foldlM (newProc border) k = some k') := by
  induction rest generalizing before k s with
  | nil =>
    rw [List.append_nil] at split
    subst split
    refine ⟨fun done => ?_,fun _ => ⟨k,rfl⟩⟩
    obtain rfl := Option.some.inj done
    exact ⟨s,follows,started⟩
  | cons text rest ih =>
    have new : k.pidCounter ∉ Finset.Ico first (first + before.length) := by
      rw [next,Finset.mem_Ico]
      omega
    have named : scriptOf all first k.pidCounter = text := by
      rw [next,scriptOf_add,← split]
      exact (List.getD_append_right _ _ _ _ (Nat.le_refl _)).trans (by rw [Nat.sub_self]; rfl)
    have ours : text ∈ all := split ▸ List.mem_append_right _ List.mem_cons_self
    have pids : insert k.pidCounter (Finset.Ico first (first + before.length)) =
        Finset.Ico first (first + (before ++ [text]).length) := by
      rw [next,List.length_append,List.length_singleton]
      ext q
      rw [Finset.mem_insert,Finset.mem_Ico,Finset.mem_Ico]
      omega
    have step (k1 : Kernel W) (one : newProc border k text = some k1) := by
      obtain ⟨follows1,started1,next1⟩ := newProc_started follows started new named (counted text ours) one
      rw [pids] at follows1 started1
      exact ih (before ++ [text]) (by rw [List.append_assoc]; exact split) k1 _ follows1 started1
        (by rw [next1,next,List.length_append,List.length_singleton]; rfl)
    constructor
    · intro done
      rw [List.foldlM_cons] at done
      obtain ⟨k1,one,more⟩ := Option.bind_eq_some_iff.mp done
      exact (step k1 one).1 more
    · intro fits
      have share : share (scripts (scriptOf all first)) k.pidCounter = min 2 (pagesOf (lines text).length) := by
        unfold Demand.share scripts
        rw [named,keptLines,List.length_map]
      have sum : firstFrames (text :: rest) = min 2 (pagesOf (lines text).length) + firstFrames rest := rfl
      obtain ⟨k1,one⟩ := newProc_fits follows started new named (counted text ours) (by omega)
      have length : (admission s k.pidCounter (Demand.share (scripts (scriptOf all first)) k.pidCounter)).resident.length =
          s.resident.length + Demand.share (scripts (scriptOf all first)) k.pidCounter := by
        rw [admission_resident (started.unknown _ new),List.length_append,List.length_reverse,List.length_map,List.length_range,
          Nat.add_comm]
      obtain ⟨k2,more⟩ := (step k1 one).2 (by omega)
      refine ⟨k2,?_⟩
      rw [List.foldlM_cons,one]
      exact more

/-- The kernel after `exec` has started its scripts. -/
theorem started_underway {scripts : List Text} {k₀ : Kernel W} (empty : EmptyKernel border k₀)
    (counted : ∀ text ∈ scripts, Counted text)
    (quiet : ∀ text ∈ scripts, ∀ line ∈ keptLines text, Quiet border shell line)
    (started : scripts.foldlM (newProc border) {k₀ with history := []} = some k) :
    ∃ s, Underway border shell (k₀.memory,k₀.world) (scriptOf scripts k₀.pidCounter)
        (Finset.Ico k₀.pidCounter (k₀.pidCounter + scripts.length)) k s ∧
      Runnable border shell (scriptOf scripts k₀.pidCounter) (Finset.Ico k₀.pidCounter (k₀.pidCounter + scripts.length)) := by
  have nobody : Finset.Ico k₀.pidCounter (k₀.pidCounter + ([] : List Text).length) = ∅ := Finset.Ico_self _
  obtain ⟨s,follows,begun⟩ := (newProcs_started shell scripts k₀.pidCounter counted [] scripts rfl {k₀ with history := []} k idle
    (nobody ▸ empty.holds) (nobody ▸ idle_started _ _) rfl).1 started
  have capacity := begun.counted ▸ begun.sound.room
  refine ⟨s,⟨follows,begun.steady,begun.recorded,?_⟩,⟨?_,?_,capacity⟩⟩
  · rw [begun.counted,Finset.sum_congr rfl begun.first]
    exact (Nat.min_eq_right capacity).symm
  · exact fun p inside => (counted _ (scriptOf_mem inside)).short
  · exact fun p inside => quiet _ (scriptOf_mem inside)

/-- The scripts can be started if their first pages fit. -/
theorem scripts_start {scripts : List Text} {k₀ : Kernel W} (empty : EmptyKernel border k₀)
    (counted : ∀ text ∈ scripts, Counted text) (fits : firstFrames scripts ≤ border/3) :
    ∃ k, scripts.foldlM (newProc border) {k₀ with history := []} = some k := by
  have nobody : Finset.Ico k₀.pidCounter (k₀.pidCounter + ([] : List Text).length) = ∅ := Finset.Ico_self _
  refine (newProcs_started (fun _ m world => (0,m,world)) scripts k₀.pidCounter counted [] scripts rfl
    {k₀ with history := []} {k₀ with history := []} idle (nobody ▸ empty.holds) (nobody ▸ idle_started _ _) rfl).2 ?_
  exact (Nat.zero_add _).trans_le fits

end
end MyShell.Demand
