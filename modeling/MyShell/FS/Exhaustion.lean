import MyShell.FS.Extension
import MyShell.FS.Undo

/-! What `inode_reserve` does when no sector is free: it stops at the first block that is
missing, and blanks sector 0 if that is a block of pointers. -/
namespace MyShell.FS
open BlockProgram PointerForest Bitmap

/-- A reservation with no sector free, stopped at a block of pointers (`inner`) or at a data sector. -/
structure Stopped (inner : Prop) (s t : Volume) : Prop where
  freeMap : t.vars.freeMap = s.vars.freeMap
  handles : t.vars.handles = s.vars.handles
  data : ¬inner → t.device = s.device
  blanked : inner → t.device = Function.update s.device 0 Sector.zeros

section
variable {s : Volume} {write : Writer}

/-- An empty entry. Every level above the data blanks sector 0. -/
theorem reserveIndirect_blanks (write : Writer) (level n : Nat) (wanted : 0 < n) (s : Volume)
    (full : bitmapScan s.vars.freeMap 0 1 false = none) :
    ∃ t, (inodeReserveIndirect write level 0 n).exec s = ((false,0),t) ∧ Stopped (0 < level) s t := by
  induction level generalizing n s with
  | zero =>
    refine ⟨{s with vars.allocations := s.vars.allocations ++ [none]},?_,rfl,rfl,fun _ => rfl,
      fun contrary => absurd contrary (Nat.lt_irrefl 0)⟩
    simp only [inodeReserveIndirect,if_true,Task.exec_bind,allocate_full write s full,Task.exec_pure]
  | succ level ih =>
    have positive : 0 < entryUnit (level+1) := by unfold entryUnit; split <;> decide
    obtain ⟨count,passes⟩ : ∃ count, (n + entryUnit (level+1) - 1) / entryUnit (level+1) = count + 1 :=
      Nat.exists_eq_add_one.mpr (Nat.div_pos (by omega) positive)
    obtain ⟨t,run,stopped⟩ := ih (min n (entryUnit (level+1))) (by omega)
      ⟨{s.vars with allocations := s.vars.allocations ++ [none]},Function.update s.device 0 Sector.zeros⟩ full
    refine ⟨t,?_,stopped.freeMap,stopped.handles,fun outer => absurd (Nat.succ_pos level) outer,fun _ => ?_⟩
    · simp only [inodeReserveIndirect,if_true,reserveBlock,Task.exec_bind,allocate_full write s full,Option.getD_none,
        exec_bufferWrite,Task.exec_pure,exec_bufferRead,Function.update_self,passes,reserveEntries,Sector.word_zeros,run,
        Bool.false_eq_true,if_false]
    · rcases Nat.eq_zero_or_pos level with leaf | inner
      · exact stopped.data (by omega)
      · exact (stopped.blanked inner).trans (Function.update_idem _ _ _)

/-- How a reservation of `keys` ends when nothing is missing, and when no sector is free. -/
structure Ends {κ α : Type} (s : Volume) (keys : List κ) (target : κ → Nat) (inner : κ → Prop) (finished failed : α)
    (result : α × Volume) : Prop where
  complete : (∀ k ∈ keys, target k ≠ 0) → result = (finished,s)
  stops : bitmapScan s.vars.freeMap 0 1 false = none → ∀ k, (keys.find? fun k => target k == 0) = some k →
    ∃ t, result = (failed,t) ∧ Stopped (inner k) s t

theorem present_of_find {κ : Type} {keys : List κ} {target : κ → Nat}
    (none : (keys.find? fun k => target k == 0) = none) (k : κ) (member : k ∈ keys) : target k ≠ 0 := by
  have missed := List.find?_eq_none.mp none k member
  simpa using missed

/-- The loop over the entries of a block, that is over the blocks below them in order. -/
theorem reserveEntries_ends (depth unit : Nat) (reserve : Nat → Nat → FsM (Bool × Nat))
    (tree : ∀ entry n, 0 < n → Ends s (reach depth n) (node blocks s.device entry) (fun path => path.length < depth)
      (true,entry) (false,entry) ((reserve entry n).exec s)) (positive : 0 < unit)
    (count i n : Nat) (block : Sector) (covers : ∀ c < count, c * unit < n) :
    Ends s (reachEntries (reach depth) unit count i n) (fun k => node blocks s.device (block.word k.1) k.2)
      (fun k => k.2.length < depth) (true,block) (false,block) ((reserveEntries reserve unit count i n block).exec s) := by
  induction count generalizing i n with
  | zero => exact ⟨fun _ => rfl,fun _ _ found => absurd found.symm (Option.some_ne_none _)⟩
  | succ count ih =>
    have wanted : 0 < n := by
      have first := covers 0 (Nat.succ_pos count)
      omega
    have entry := tree (block.word i) (min n unit) (by omega)
    have rest := ih (i+1) (n - min n unit) fun c pass => by
      have next := covers (c+1) (by omega)
      rw [Nat.succ_mul] at next
      generalize c * unit = far at next ⊢
      omega
    have pass (there : ∀ path ∈ reach depth (min n unit), node blocks s.device (block.word i) path ≠ 0) :
        (reserveEntries reserve unit (count+1) i n block).exec s =
          (reserveEntries reserve unit count (i+1) (n - min n unit) block).exec s := by
      simp only [reserveEntries,Task.exec_bind,entry.complete there,if_true,Sector.setWord_self]
    refine ⟨fun present => ?_,fun full k found => ?_⟩
    · rw [pass fun path member => present (i,path) (List.mem_append_left _ (List.mem_map_of_mem member))]
      exact rest.complete fun k member => present k (List.mem_append_right _ member)
    · rw [reachEntries,List.find?_append,List.find?_map,Option.or_eq_some_iff] at found
      rcases found with here | ⟨none,later⟩
      · obtain ⟨path,first,rfl⟩ := Option.map_eq_some_iff.mp here
        obtain ⟨t,run,stopped⟩ := entry.stops full path first
        refine ⟨t,?_,stopped⟩
        simp only [reserveEntries,Task.exec_bind,run,Bool.false_eq_true,if_false,Task.exec_pure,Sector.setWord_self]
      · rw [pass (present_of_find (Option.map_eq_none_iff.mp none))]
        exact rest.stops full k later

theorem reach_head (level n : Nat) : ∃ rest, reach level n = [] :: rest := by
  cases level with
  | zero => exact ⟨[],rfl⟩
  | succ level => exact ⟨_,rfl⟩

/-- `inode_reserve_indirect`. -/
theorem reserveIndirect_ends (write : Writer) (level : Nat) (s : Volume) (entry n : Nat) (wanted : 0 < n) :
    Ends s (reach level n) (node blocks s.device entry) (fun path => path.length < level) (true,entry) (false,entry)
      ((inodeReserveIndirect write level entry n).exec s) := by
  induction level generalizing entry n with
  | zero =>
    rcases Nat.eq_zero_or_pos entry with rfl | present
    · refine ⟨fun there => absurd rfl (there [] List.mem_cons_self),fun full k found => ?_⟩
      obtain rfl : [] = k := by simpa [reach,node] using found
      exact reserveIndirect_blanks write 0 n wanted s full
    · have there := Nat.ne_of_gt present
      refine ⟨fun _ => ?_,fun _ k found => ?_⟩
      · rw [inodeReserveIndirect,if_neg there]
        exact Task.exec_pure _ _
      · rw [reach,List.find?_cons_of_neg (by rw [node]; simpa using there)] at found
        exact absurd found.symm (Option.some_ne_none _)
  | succ level ih =>
    rcases Nat.eq_zero_or_pos entry with rfl | present
    · obtain ⟨rest,first⟩ := reach_head (level+1) n
      rw [first]
      refine ⟨fun there => absurd rfl (there [] List.mem_cons_self),fun full k found => ?_⟩
      rw [List.find?_cons_of_pos (by rw [node_null]; rfl)] at found
      obtain rfl := Option.some.inj found
      exact reserveIndirect_blanks write (level+1) n wanted s full
    · have there := Nat.ne_of_gt present
      have positive : 0 < entryUnit (level+1) := by unfold entryUnit; split <;> decide
      have loop := reserveEntries_ends level (entryUnit (level+1)) (inodeReserveIndirect write level) ih positive
        ((n + entryUnit (level+1) - 1) / entryUnit (level+1)) 0 n (s.device entry)
        fun c pass => unit_passes _ n c positive pass
      have step (k : Nat × List Nat) : node blocks s.device entry (k.1 :: k.2) =
          node blocks s.device ((s.device entry).word k.1) k.2 := node_cons _ _ _ _ _ there
      refine ⟨fun all => ?_,fun full path found => ?_⟩
      · have filled := loop.complete fun k member => (step k).symm.trans_ne
          (all (k.1 :: k.2) (List.mem_cons_of_mem _ (List.mem_map.mpr ⟨k,member,rfl⟩)))
        simp only [inodeReserveIndirect,if_neg there,Task.exec_bind,Task.exec_pure,exec_bufferRead,filled,if_true,
          exec_bufferWrite,Function.update_eq_self]
      · rw [reach,List.find?_cons_of_neg (by rw [node]; simpa using there),List.find?_map] at found
        obtain ⟨k,first,rfl⟩ := Option.map_eq_some_iff.mp found
        simp only [Function.comp_def,step] at first
        obtain ⟨t,run,stopped⟩ := loop.stops full k first
        refine ⟨t,?_,stopped.freeMap,stopped.handles,fun outer => stopped.data fun inner => outer (Nat.succ_lt_succ inner),
          fun inner => stopped.blanked (Nat.lt_of_succ_lt_succ inner)⟩
        simp only [inodeReserveIndirect,if_neg there,Task.exec_bind,Task.exec_pure,exec_bufferRead,run,Bool.false_eq_true,
          if_false]

/-- The part of `inode_reserve` below a single pointer of the inode, if any block is wanted there. -/
theorem reservePointer_ends (write : Writer) (s : Volume) (d : Sector) (pointer depth n m : Nat)
    (wanted : n = 0 ↔ m = 0) :
    Ends s (if n = 0 then [] else (reach depth m).map fun path => (pointer,path))
      (fun k => node blocks s.device (d.word k.1) k.2) (fun k => k.2.length < depth) (true,d.word pointer)
      (false,d.word pointer)
      (if n = 0 then ((true,d.word pointer),s) else (inodeReserveIndirect write depth (d.word pointer) m).exec s) := by
  split
  · exact ⟨fun _ => rfl,fun _ _ found => absurd found.symm (Option.some_ne_none _)⟩
  · have tree := reserveIndirect_ends write depth s (d.word pointer) m (by omega)
    refine ⟨fun present => tree.complete fun path member => present (pointer,path) (List.mem_map_of_mem member),
      fun full k found => ?_⟩
    rw [List.find?_map] at found
    obtain ⟨path,first,rfl⟩ := Option.map_eq_some_iff.mp found
    exact tree.stops full path first

/-- `inode_reserve`. -/
theorem inodeReserve_ends (write : Writer) (s : Volume) (d : Sector) (length : Int) (natural : 0 ≤ length) :
    Ends s (inodeReach (bytesToSectors length)) (fun k => node blocks s.device (d.word k.1) k.2)
      (fun k => k.2.length < height k.1) (decide (bytesToSectors length ≤ 16635),d) (false,d)
      ((inodeReserve write d length).exec s) := by
  simp only [inodeReserve,if_neg (Int.not_lt.mpr natural)]
  generalize bytesToSectors length = n
  have direct := reserveEntries_ends 0 1 (inodeReserveIndirect write 0) (reserveIndirect_ends write 0 s) (by decide)
    (min n 123) 0 (min n 123) d fun c pass => by omega
  have single := reservePointer_ends write s d 123 1 (n - 123) (min (n - 123) 128) (by omega)
  have double := reservePointer_ends write s d 124 2 (n - 123 - 128) (min (n - 123 - 128) 16384) (by omega)
  rw [show d.word 123 = d.indirectBlock from rfl] at single
  rw [show d.word 124 = d.doublyIndirectBlock from rfl] at double
  have first : d.setWord 123 d.indirectBlock = d := Sector.setWord_self d 123
  have second : d.setWord 124 d.doublyIndirectBlock = d := Sector.setWord_self d 124
  have pointer (depth m j : Nat) (c : Prop) [Decidable c] (k : Nat × List Nat)
      (member : k ∈ if c then [] else (reach depth m).map fun path => (j,path)) : k.1 = j := by
    split at member
    · exact absurd member List.not_mem_nil
    · obtain ⟨path,-,rfl⟩ := List.mem_map.mp member
      rfl
  constructor
  · intro present
    have run := direct.complete fun k member => present k (List.mem_append_left _ member)
    have run₁ := single.complete fun k member => present k (List.mem_append_right _ (List.mem_append_left _ member))
    have run₂ := double.complete fun k member => present k (List.mem_append_right _ (List.mem_append_right _ member))
    by_cases none : n - 123 = 0
    · simp only [Task.exec_bind,run,Bool.not_true,Bool.false_eq_true,if_false,if_pos none,Task.exec_pure,
        decide_eq_true (show n ≤ 16635 by omega)]
    · rw [if_neg none] at run₁
      by_cases few : n - 123 - 128 = 0
      · simp only [Task.exec_bind,run,Bool.not_true,Bool.false_eq_true,if_false,if_neg none,run₁,first,if_pos few,
          Task.exec_pure,decide_eq_true (show n ≤ 16635 by omega)]
      · rw [if_neg few] at run₂
        have all : (n - 123 - 128 - 16384 == 0) = decide (n ≤ 16635) := by
          rw [Bool.eq_iff_iff,beq_iff_eq,decide_eq_true_iff]
          omega
        simp only [Task.exec_bind,run,Bool.not_true,Bool.false_eq_true,if_false,if_neg none,run₁,first,if_neg few,run₂,
          second,Bool.true_and,Task.exec_pure,all]
  · intro full k found
    rw [inodeReach,List.find?_append,List.find?_append,Option.or_eq_some_iff,Option.or_eq_some_iff] at found
    rcases found with here | ⟨none,here | ⟨none',here⟩⟩
    · obtain ⟨t,run,stopped⟩ := direct.stops full k here
      have low := (mem_reachEntries _ _ _ _ _ k (List.mem_of_find?_eq_some here)).2.1
      have tall : height k.1 = 0 := if_pos (by omega)
      refine ⟨t,?_,tall.symm ▸ stopped⟩
      simp only [Task.exec_bind,run,Bool.not_false,if_true,Task.exec_pure]
    · have run := direct.complete (present_of_find none)
      obtain ⟨t,run₁,stopped⟩ := single.stops full k here
      have member := List.mem_of_find?_eq_some here
      have tall : height k.1 = 1 := by
        rw [pointer 1 _ 123 _ k member]
        rfl
      have some : n - 123 ≠ 0 := fun zero => by
        rw [if_pos zero] at member
        exact absurd member List.not_mem_nil
      rw [if_neg some] at run₁
      refine ⟨t,?_,tall.symm ▸ stopped⟩
      simp only [Task.exec_bind,run,Bool.not_true,Bool.false_eq_true,if_false,if_neg some,run₁,first,Bool.not_false,if_true,
        Task.exec_pure]
    · have run := direct.complete (present_of_find none)
      have run₁ := single.complete (present_of_find none')
      obtain ⟨t,run₂,stopped⟩ := double.stops full k here
      have member := List.mem_of_find?_eq_some here
      have tall : height k.1 = 2 := by
        rw [pointer 2 _ 124 _ k member]
        rfl
      have some : n - 123 - 128 ≠ 0 := fun zero => by
        rw [if_pos zero] at member
        exact absurd member List.not_mem_nil
      rw [if_neg (by omega)] at run₁
      rw [if_neg some] at run₂
      refine ⟨t,?_,tall.symm ▸ stopped⟩
      simp only [Task.exec_bind,run,Bool.not_true,Bool.false_eq_true,if_false,if_neg (show n - 123 ≠ 0 by omega),run₁,first,
        if_neg some,run₂,second,Bool.false_and,Task.exec_pure]

/-- The first block on the way to `n` data blocks that is missing. -/
def firstMissing (d : Sector) (mem : Nat → Sector) (n : Nat) : Option (Nat × List Nat) :=
  (inodeReach n).find? fun k => node blocks mem (d.word k.1) k.2 == 0

/-- Where a failed extension of the map `d` to `total` bytes takes nothing and blanks nothing. -/
def FailsClean (d : Sector) (total : Int) (s : Volume) : Prop :=
  total < 0 ∨ firstMissing d s.device (bytesToSectors total) = none ∨
    s.vars.freeMap.clearCount = 0 ∧ (s.device freeMapSector = Sector.zeros ∨
      ∃ k, firstMissing d s.device (bytesToSectors total) = some k ∧ k.2.length = height k.1)

/-- Everything is as before the write, which stored nothing. -/
structure Unwritten (s : Volume) (p : Nat) (result : Int × Volume) : Prop where
  returned : result.1 = 0
  freeMap : result.2.vars.freeMap = s.vars.freeMap
  inode : result.2.vars.handles.inode p = s.vars.handles.inode p
  sectors : result.2.device = s.device

theorem missing_eq_zero {d : Sector} {mem : Nat → Sector} {n : Nat} :
    missing d mem (inodeReach n) = 0 ↔ firstMissing d mem n = none := by
  unfold missing firstMissing
  rw [List.countP_eq_zero,List.find?_eq_none]

theorem scan_full {b : Bitmap} (full : b.clearCount = 0) : bitmapScan b 0 1 false = none := by
  cases found : bitmapScan b 0 1 false with
  | none => rfl
  | some i =>
    obtain ⟨inside,clear⟩ := scan_some b i found
    have none := List.countP_eq_zero.mp full i (List.mem_range.mpr inside)
    rw [Nat.zero_add,clear] at none
    exact absurd (beq_self_eq_true false) none

variable {reserved dirty kept : Nat → Prop} {img : Nat → Sector} {p x : Nat} {inode : Inode}

/-- Looking up a block changes nothing. -/
theorem exec_byteToSector_state (d : Sector) (pos : Int) (s : Volume) :
    (byteToSector d pos).exec s = (((byteToSector d pos).exec s).1,s) := by
  unfold byteToSector indexToSector
  simp only [Task.exec_ite,Task.exec_bind,exec_bufferRead,Task.exec_pure]
  repeat' split
  all_goals rfl

/-- How a reservation fails: the length is negative, or it stopped for want of sectors,
or the length is past the largest file. -/
theorem inodeReserve_fails (ready : Ready reserved dirty s) (below : ∀ y, reserved y → kept y)
    (held : ∀ y, kept y → bitmapTest s.vars.freeMap y = true) {d : Sector} (sound : SoundMap kept (arena s) d)
    (isWrite : IsWrite write) (total : Int) :
    ((inodeReserve write d total).exec s).1.1 = false ↔
      total < 0 ∨ s.vars.freeMap.clearCount < missing d s.device (inodeReach (bytesToSectors total)) ∨
        16635 < bytesToSectors total := by
  rcases Int.lt_or_le total 0 with negative | natural
  · have run : (inodeReserve write d total).exec s = ((false,d),s) := by
      simp only [inodeReserve,if_pos negative,Task.exec_pure]
    rw [run]
    exact ⟨fun _ => Or.inl negative,fun _ => rfl⟩
  · obtain ⟨done,run,result⟩ := inodeReserve_spec isWrite ready.within s d total ready below held sound natural
    rw [result,Bool.and_eq_false_iff,decide_eq_false_iff_not]
    cases done with
    | true =>
      have count := run.allocated.count rfl
      refine ⟨fun failed => Or.inr (Or.inr ?_),fun failed => Or.inr ?_⟩
      · rcases failed with contrary | large
        · exact absurd contrary.symm Bool.false_ne_true
        · omega
      · omega
    | false => exact ⟨fun _ => Or.inr (Or.inl (run.allocated.short rfl).2),fun _ => Or.inl rfl⟩

/-- A write whose reservation fails returns 0, in the state the reservation leaves. -/
theorem exec_writeStep_refused (holds : Holds img s p x inode) (buffer : List Byte) (size offset : Int)
    (last : (byteToSector (img x) (i32 (i32 (offset + size) - 1))).exec s = (noSector,s)) {d : Sector} {t : Volume}
    (refused : (inodeReserve write (img x) (i32 (offset + size))).exec s = ((false,d),t)) :
    (inodeWriteAtStep write p buffer size offset).exec s = (0,withData t p d t.device) := by
  have extend := exec_inodeExtend write holds (i32 (offset + size)) false d refused
  rw [if_neg Bool.false_ne_true] at extend
  rw [exec_writeStep_beyond write holds buffer size offset last,extend,if_neg Bool.false_ne_true]

/-- The volume on which `failed_extension_iff` is about the cache. -/
theorem failedExtension_spec (ready : Ready reserved dirty s) (below : ∀ y, reserved y → kept y)
    (held : ∀ y, kept y → bitmapTest s.vars.freeMap y = true) (sound : SoundMap kept (arena s) (img x))
    (holds : Holds img s p x inode) (buffer : List Byte) (size offset : Int)
    (last : (byteToSector (img x) (i32 (i32 (offset + size) - 1))).exec s = (noSector,s))
    (failed : ((inodeReserve inodeWriteAt (img x) (i32 (offset + size))).exec s).1.1 = false) :
    Unwritten s p ((inodeWriteAt p buffer size offset).exec s) ↔ FailsClean (img x) (i32 (offset + size)) s := by
  obtain ⟨write,isWrite,step⟩ := inodeWriteAt_step s
  have refused := (inodeReserve_fails ready below held sound isWrite _).mpr
    ((inodeReserve_fails ready below held sound isWrite_inodeWriteAt _).mp failed)
  rw [step]
  generalize final : (inodeReserve write (img x) (i32 (offset + size))).exec s = result at refused
  obtain ⟨⟨found,d⟩,t⟩ := result
  obtain rfl : found = false := refused
  rw [exec_writeStep_refused holds buffer size offset last final]
  clear last failed step
  generalize i32 (offset + size) = total at final ⊢
  have unchanged : withData s p (img x) s.device = s := congrArg (fun h => withHandles s h) holds.setData_self
  rcases Int.lt_or_le total 0 with negative | natural
  · simp only [inodeReserve,if_pos negative,Task.exec_pure,Prod.mk.injEq] at final
    obtain ⟨⟨-,rfl⟩,rfl⟩ := final
    rw [unchanged]
    exact ⟨fun _ => Or.inl negative,fun _ => ⟨rfl,rfl,rfl,rfl⟩⟩
  · obtain ⟨done,run,result⟩ := inodeReserve_spec isWrite ready.within s (img x) total ready below held sound natural
    have ends := inodeReserve_ends write s (img x) total natural
    rw [final] at run result ends
    dsimp only at run result
    -- with no sector free the inode in memory stays as it is
    have stop (full : s.vars.freeMap.clearCount = 0) (k : Nat × List Nat)
        (first : firstMissing (img x) s.device (bytesToSectors total) = some k) :
        d = img x ∧ Stopped (k.2.length < height k.1) s t := by
      obtain ⟨u,same,stopped⟩ := ends.stops (scan_full full) k first
      obtain ⟨flag,rfl⟩ := Prod.mk.inj same
      exact ⟨(Prod.mk.inj flag).2,stopped⟩
    have key (k : Nat × List Nat) (first : firstMissing (img x) s.device (bytesToSectors total) = some k) :
        k.2.length ≤ height k.1 := (inodeReach_key _ k (List.mem_of_find?_eq_some first)).short
    constructor
    · intro still
      have bits : t.vars.freeMap = s.vars.freeMap := still.freeMap
      have sectors : t.device = s.device := still.sectors
      cases done with
      | true =>
        have count := run.allocated.count rfl
        rw [bits] at count
        exact Or.inr (Or.inl (missing_eq_zero.mp (by omega)))
      | false =>
        obtain ⟨full,short⟩ := run.allocated.short rfl
        rw [bits] at full
        refine Or.inr (Or.inr ⟨full,?_⟩)
        cases first : firstMissing (img x) s.device (bytesToSectors total) with
        | none =>
          rw [missing_eq_zero.mpr first] at short
          exact absurd short (Nat.not_lt_zero _)
        | some k =>
          obtain ⟨-,stopped⟩ := stop full k first
          by_cases inner : k.2.length < height k.1
          · refine Or.inl ?_
            have zero := congrFun ((stopped.blanked inner).symm.trans sectors) 0
            rw [Function.update_self] at zero
            exact zero.symm
          · exact Or.inr ⟨k,rfl,Nat.le_antisymm (key k first) (Nat.le_of_not_lt inner)⟩
    · rintro (negative | none | ⟨full,clean⟩)
      · omega
      · obtain ⟨same,rfl⟩ := Prod.mk.inj (ends.complete (present_of_find none))
        obtain rfl : d = img x := (Prod.mk.inj same).2
        rw [unchanged]
        exact ⟨rfl,rfl,rfl,rfl⟩
      · cases first : firstMissing (img x) s.device (bytesToSectors total) with
        | none =>
          obtain ⟨same,rfl⟩ := Prod.mk.inj (ends.complete (present_of_find first))
          obtain rfl : d = img x := (Prod.mk.inj same).2
          rw [unchanged]
          exact ⟨rfl,rfl,rfl,rfl⟩
        | some k =>
          obtain ⟨rfl,stopped⟩ := stop full k first
          have sectors : t.device = s.device := by
            by_cases inner : k.2.length < height k.1
            · rcases clean with zeros | ⟨j,second,leaf⟩
              · rw [stopped.blanked inner,← zeros]
                exact Function.update_eq_self _ _
              · obtain rfl := Option.some.inj (first.symm.trans second)
                omega
            · exact stopped.data inner
          have inode : (t.vars.handles.setData p (img x)).inode p = s.vars.handles.inode p := by
            rw [stopped.handles,holds.setData_self]
          exact ⟨rfl,stopped.freeMap,inode,sectors⟩

end

/-- A write that has to extend the file and cannot leaves everything as it was, exactly
when `FailsClean` holds before it. -/
theorem failed_extension_iff {reserved dirty kept : Nat → Prop} (s : FileSys) {p x : Nat} {inode : Inode}
    {img : Nat → Sector} (ready : Ready reserved dirty (volume s)) (below : ∀ y, reserved y → kept y)
    (held : ∀ y, kept y → bitmapTest s.vars.freeMap y = true) (sound : SoundMap kept (arena (volume s)) (img x))
    (holds : Holds img (volume s) p x inode) (buffer : List Byte) (size offset : Int)
    (short : ((byteToSector (img x) (i32 (i32 (offset + size) - 1))).exec s).1 = noSector)
    (failed : ((inodeReserve inodeWriteAt (img x) (i32 (offset + size))).exec s).1.1 = false) :
    Unwritten (volume s) p (((inodeWriteAt p buffer size offset).exec s).1,
        volume ((inodeWriteAt p buffer size offset).exec s).2) ↔
      FailsClean (img x) (i32 (offset + size)) (volume s) := by
  rw [← exec_volume]
  refine failedExtension_spec ready below held sound holds buffer size offset ?_ (by rw [exec_volume]; exact failed)
  rw [exec_byteToSector_state,exec_volume,short]

/-- Distinct marked sectors are no more than the bits of the map. -/
theorem marked_length {reserved dirty : Nat → Prop} {s : Volume} (ready : Ready reserved dirty s) (l : List Nat)
    (distinct : l.Nodup) (marked : ∀ y ∈ l, bitmapTest s.vars.freeMap y = true) : l.length ≤ s.vars.freeMap.bitCnt := by
  have sub : l ⊆ List.range s.vars.freeMap.bitCnt := fun y member =>
    List.mem_range.mpr (ready.inside y (marked y member))
  have bound := (List.subperm_of_subset distinct sub).length_le
  rwa [List.length_range] at bound

/-- A map cannot have all the blocks of the largest file on a smaller device. -/
theorem firstMissing_small {reserved dirty kept : Nat → Prop} {s : Volume} {d : Sector} {n : Nat}
    (ready : Ready reserved dirty s) (sound : SoundMap kept (arena s) d) (small : s.vars.freeMap.bitCnt < 16635)
    (large : 16635 ≤ n) : firstMissing d s.device n ≠ none := by
  intro none
  have present (k : Nat × List Nat) (member : k ∈ inodeReach 16635) : node blocks s.device (d.word k.1) k.2 ≠ 0 :=
    present_of_find none k (inodeReach_mono large k member)
  have distinct := (List.nodup_append'.mp (sound.blocks_nodup (Nat.le_refl 16635) present)).1
  have bound := marked_length ready _ distinct fun y member => by
    obtain ⟨i,inside,rfl⟩ := List.mem_map.mp member
    have reached := inodeReach_data 16635 i (List.mem_range.mp inside) (List.mem_range.mp inside)
    exact sound.marked _ _ (inodeReach_key _ _ reached) (present _ reached)
  rw [List.length_map,List.length_range] at bound
  omega

/-- What a listed file is for a write once it was opened. -/
structure Opened (reserved dirty kept : Nat → Prop) (img : Nat → Sector) (s : Volume) (p x : Nat) (inode : Inode) : Prop where
  ready : Ready reserved dirty s
  below : ∀ y, reserved y → kept y
  held : ∀ y, kept y → bitmapTest s.vars.freeMap y = true
  sound : SoundMap kept (arena s) (img x)
  holds : Holds img s p x inode
  limit : (img x).length ≤ 8517120

theorem Mounted.opened {reserved dirty : Nat → Prop} {s : FileSys} {x : Nat} (mounted : Mounted reserved dirty (volume s))
    (listed : ListedSector (volume s) x) :
    ((inodeOpen x).exec s).2.vars.freeMap = s.vars.freeMap ∧
      Opened reserved dirty (fun y => reserved y ∨ Owns (rootArray (volume s)) y) (volume s).device
        (volume ((inodeOpen x).exec s).2) ((inodeOpen x).exec s).1 x (readInode x ((volume s).device x)) := by
  obtain ⟨owns,-⟩ := mounted.inside listed
  have opening := exec_inodeOpen_new (volume s) x (mounted.idle.unopened (mounted.nonzero owns))
  rw [exec_volume] at opening
  obtain ⟨pointer,state⟩ := Prod.mk.inj opening
  change volume ((inodeOpen x).exec s).2 =
    withHandles (volume s) ((volume s).vars.handles.openInode x ((volume s).device x)) at state
  refine ⟨congrArg (fun v : Volume => v.vars.freeMap) state,?_⟩
  rw [state,pointer]
  exact ⟨mounted.ready.openInode mounted.idle.live x _,fun y taken => Or.inl taken,mounted.layout.held mounted.ready,
    mounted.layout.map owns,holds_openInode (volume s) mounted.idle.live x,mounted.layout.limit x owns⟩

/-- A write past the largest file cannot extend it. -/
theorem Opened.past {reserved dirty kept : Nat → Prop} {img : Nat → Sector} {s : FileSys} {p x : Nat} {inode : Inode}
    (opened : Opened reserved dirty kept img (volume s) p x inode) (total last : Int) (after : 8517120 ≤ last)
    (large : 16635 < bytesToSectors total) :
    ((byteToSector (img x) last).exec s).1 = noSector ∧
      ((inodeReserve inodeWriteAt (img x) total).exec s).1.1 = false := by
  have limit := opened.limit
  have past := exec_byteToSector_beyond (img x) last (volume s) (Or.inr (by omega))
  have refused := (inodeReserve_fails opened.ready opened.below opened.held opened.sound isWrite_inodeWriteAt
    total).mpr (Or.inr (Or.inr large))
  rw [exec_volume] at past refused
  exact ⟨(Prod.mk.inj past).1,refused⟩

/-- It takes every sector that is left. -/
theorem Opened.unclean {reserved dirty kept : Nat → Prop} {img : Nat → Sector} {s : FileSys} {p x : Nat} {inode : Inode}
    (opened : Opened reserved dirty kept img (volume s) p x inode) (small : s.vars.freeMap.bitCnt < 16635)
    (free : s.vars.freeMap.clearCount ≠ 0) (buffer : List Byte) (size offset : Int)
    (after : 8517120 ≤ i32 (i32 (offset + size) - 1)) (natural : 0 ≤ i32 (offset + size))
    (large : 16635 < bytesToSectors (i32 (offset + size))) :
    ¬Unwritten (volume s) p (((inodeWriteAt p buffer size offset).exec s).1,
      volume ((inodeWriteAt p buffer size offset).exec s).2) := by
  obtain ⟨past,refused⟩ := opened.past _ _ after large
  have spec := failedExtension_spec opened.ready opened.below opened.held opened.sound opened.holds buffer size offset
    (by rw [exec_byteToSector_state,exec_volume,past]) (by rw [exec_volume]; exact refused)
  rw [exec_volume] at spec
  intro still
  rcases spec.mp still with negative | none | ⟨full,-⟩
  · exact absurd negative (Int.not_lt.mpr natural)
  · exact firstMissing_small opened.ready opened.sound small (Nat.le_of_lt large) none
  · exact free full

/-- The file system after a file was created on the new device. -/
@[irreducible] def createdA : FileSys := ((filesysCreate [] nameA 5000 false).exec (formatted blankStore)).2

/-- A file created with room to spare. -/
theorem Sane.created_spec {reserved dirty : Nat → Prop} {s : FileSys} (sane : Sane reserved dirty s)
    (leak : leakAt (volume s) nameA 5000 = none) (clear : 2 + blocksFor 5000 ≤ (volume s).vars.freeMap.clearCount)
    (growth : rootGrowth (volume s).device = 0) (device : deviceSize s = 1000) :
    ∃ x, Mounted reserved dirty (volume ((filesysCreate [] nameA 5000 false).exec s).2) ∧
      ListedSector (volume ((filesysCreate [] nameA 5000 false).exec s).2) x ∧
      ((filesysCreate [] nameA 5000 false).exec s).2.vars.freeMap.clearCount ≠ 0 ∧
      ((filesysCreate [] nameA 5000 false).exec s).2.vars.freeMap.bitCnt = 999 := by
  have bits := (sane.step (.create [] nameA 5000) ⟨by decide,by decide⟩).1.size
  have same : ((FileOp.create [] nameA 5000).task.exec s).2 = ((filesysCreate [] nameA 5000 false).exec s).2 := by
    unfold FileOp.task
    simp only [Task.exec_bind,Task.exec_pure]
  rw [exec_deviceSize,same,device] at bits
  obtain ⟨-,growing⟩ := sane.created [] nameA (by decide) 5000 (by decide) (by decide)
  obtain ⟨x,grown,count⟩ := growing leak
  obtain ⟨i,-,listed,sector⟩ := listed_of_sectorOf grown.named
  change 2 + blocksFor 5000 ≤ s.vars.freeMap.clearCount at clear
  rw [growth] at count
  refine ⟨x,grown.mounted,⟨i,listed,sector⟩,fun zero => ?_,bits⟩
  rw [← count,zero] at clear
  generalize blocksFor 5000 = k at clear
  omega

theorem createdA_spec : ∃ reserved dirty x, Mounted reserved dirty (volume createdA) ∧ ListedSector (volume createdA) x ∧
    createdA.vars.freeMap.clearCount ≠ 0 ∧ createdA.vars.freeMap.bitCnt = 999 := by
  obtain ⟨reserved,dirty,sane⟩ := formatted_sane blankStore blankStore_formattable
  obtain ⟨clear,growth⟩ := formatted_blankStore_clear
  unfold createdA
  exact ⟨reserved,dirty,sane.created_spec formatted_blankStore_leak clear growth (formatted_deviceSize blankStore)⟩

theorem past_last : 8517120 ≤ i32 (i32 (8517120 + 1) - 1) := by decide

theorem past_total : 16635 < bytesToSectors (i32 (8517120 + 1)) := by decide

/-- One byte written far past the end of a file of 5000 bytes: the write returns 0, but
the sectors it took first are lost. -/
theorem createdA_write_unclean : ∃ x p img inode, ListedSector (volume createdA) x ∧ ((inodeOpen x).exec createdA).1 = p ∧
    Holds img (volume ((inodeOpen x).exec createdA).2) p x inode ∧
      ((byteToSector (img x) (i32 (i32 (8517120 + 1) - 1))).exec ((inodeOpen x).exec createdA).2).1 = noSector ∧
      ((inodeReserve inodeWriteAt (img x) (i32 (8517120 + 1))).exec ((inodeOpen x).exec createdA).2).1.1 = false ∧
      ¬Unwritten (volume ((inodeOpen x).exec createdA).2) p
        (((inodeWriteAt p [7] 1 8517120).exec ((inodeOpen x).exec createdA).2).1,
          volume ((inodeWriteAt p [7] 1 8517120).exec ((inodeOpen x).exec createdA).2).2) := by
  obtain ⟨reserved,dirty,x,mounted,listed,free,bits⟩ := createdA_spec
  obtain ⟨freeMap,opened⟩ := mounted.opened listed
  obtain ⟨past,refused⟩ := opened.past (i32 (8517120 + 1)) (i32 (i32 (8517120 + 1) - 1)) past_last past_total
  exact ⟨x,_,_,_,listed,rfl,opened.holds,past,refused,opened.unclean (by rw [freeMap,bits]; decide) (by rw [freeMap]; exact free)
    [7] 1 8517120 past_last (by decide) past_total⟩

theorem createdA_write_failed : ∃ (s t : FileSys) (x p : Nat) (img : Nat → Sector), ListedSector (volume s) x ∧
    (inodeOpen x).exec s = (p,t) ∧
    (Unwritten (volume t) p (((inodeWriteAt p [7] 1 8517120).exec t).1,volume ((inodeWriteAt p [7] 1 8517120).exec t).2) ↔
      FailsClean (img x) (i32 (8517120 + 1)) (volume t)) := by
  obtain ⟨reserved,dirty,x,mounted,listed,-⟩ := createdA_spec
  obtain ⟨-,opened⟩ := mounted.opened listed
  generalize createdA = s at opened listed
  generalize run : (inodeOpen x).exec s = result at opened
  obtain ⟨p,t⟩ := result
  obtain ⟨past,refused⟩ := opened.past (i32 (8517120 + 1)) (i32 (i32 (8517120 + 1) - 1)) past_last past_total
  exact ⟨s,t,x,p,_,listed,run,failed_extension_iff t opened.ready opened.below opened.held opened.sound opened.holds [7] 1
    8517120 past refused⟩

end MyShell.FS
