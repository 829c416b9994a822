import MyShell.FS.Ownership

/-! What `inode_reserve` makes of a block map when it succeeds, and what a write leaves
behind when it fails. -/
namespace MyShell.FS
open BlockProgram PointerForest Bitmap

/-- What `index_to_sector` gives for the first `n` indices. -/
def indexSectors (d : Sector) (n : Nat) (s : FileSys) : List Nat :=
  (List.range n).map fun i => ((indexToSector d i).exec s).1

/-- The indirect, doubly indirect and second-level blocks of the first `n` indices. -/
def pointerBlocks (d : Sector) (mem : Nat → Sector) (n : Nat) : List Nat :=
  ((inodeReach n).filter fun k => decide (k.2.length < height k.1)).map fun k => node blocks mem (d.word k.1) k.2

/-- A block map `d'` after a reservation of `n` data sectors from the map `d`. -/
structure WellReserved (s t : FileSys) (d d' : Sector) (n : Nat) : Prop where
  nonzero : ∀ y ∈ indexSectors d' n t, y ≠ 0
  distinct : (indexSectors d' n t ++ pointerBlocks d' (volume t).device n).Nodup
  marked : ∀ y ∈ indexSectors d' n t ++ pointerBlocks d' (volume t).device n, bitmapTest t.vars.freeMap y = true
  kept : ∀ pointer path, Key blocks height isPointer pointer path →
    node blocks (volume s).device (d.word pointer) path ≠ 0 →
    node blocks (volume t).device (d'.word pointer) path = node blocks (volume s).device (d.word pointer) path
  fresh : ∀ pointer path, Key blocks height isPointer pointer path →
    node blocks (volume s).device (d.word pointer) path = 0 → node blocks (volume t).device (d'.word pointer) path ≠ 0 →
    bitmapTest s.vars.freeMap (node blocks (volume t).device (d'.word pointer) path) = false
  zeroed : ∀ i < n, dataSector d (volume s).device i = 0 →
    (volume t).device (dataSector d' (volume t).device i) = Sector.zeros
  bits : ∀ y, bitmapTest t.vars.freeMap y = true ↔ bitmapTest s.vars.freeMap y = true ∨
    ∃ k ∈ inodeReach n, node blocks (volume s).device (d.word k.1) k.2 = 0 ∧
      node blocks (volume t).device (d'.word k.1) k.2 = y

section
variable {reserved dirty kept : Nat → Prop} {s t : FileSys} {d d' : Sector} {n : Nat}

theorem indexSectors_eq (small : n ≤ 16635) (present : ∀ k < n, dataSector d (volume s).device k ≠ 0) :
    indexSectors d n s = (List.range n).map (dataSector d (volume s).device) := by
  refine List.map_congr_left fun i member => ?_
  have inside := List.mem_range.mp member
  have run := exec_indexToSector d i (volume s) (by omega) (present i inside)
  rw [exec_volume] at run
  exact (Prod.mk.inj run).1

theorem mem_pointerBlocks (d : Sector) (mem : Nat → Sector) (n y : Nat) (member : y ∈ pointerBlocks d mem n) :
    ∃ k ∈ inodeReach n, k.2.length < height k.1 ∧ node blocks mem (d.word k.1) k.2 = y := by
  obtain ⟨k,listed,same⟩ := List.mem_map.mp member
  obtain ⟨reached,inner⟩ := List.mem_filter.mp listed
  exact ⟨k,reached,of_decide_eq_true inner,same⟩

/-- The data sectors and the blocks of pointers of a sound map are different ones. -/
theorem SoundMap.blocks_nodup {a : Arena Sector} (sound : SoundMap kept a d) (small : n ≤ 16635)
    (complete : ∀ k ∈ inodeReach n, node blocks a.mem (d.word k.1) k.2 ≠ 0) :
    ((List.range n).map (dataSector d a.mem) ++ pointerBlocks d a.mem n).Nodup := by
  have data (i : Nat) (member : i ∈ List.range n) : i < 16635 ∧ dataSector d a.mem i ≠ 0 := by
    have inside := List.mem_range.mp member
    exact ⟨by omega,complete _ (inodeReach_data n i inside (by omega))⟩
  refine List.nodup_append'.mpr ⟨?_,?_,fun y left right => ?_⟩
  · refine List.Nodup.map_on (fun i first j second same => ?_) List.nodup_range
    exact sound.dataSector_inj i j (data i first).1 (data j second).1 (data i first).2 same
  · refine List.Nodup.map_on (fun j first k second same => ?_) ((inodeReach_nodup n).filter _)
    have reached := (List.mem_filter.mp first).1
    obtain ⟨pointer,path⟩ := sound.single j.1 j.2 k.1 k.2 (inodeReach_key n j reached)
      (inodeReach_key n k (List.mem_filter.mp second).1) (complete j reached) same
    exact Prod.ext pointer path
  · obtain ⟨i,member,rfl⟩ := List.mem_map.mp left
    obtain ⟨k,reached,inner,same⟩ := mem_pointerBlocks d a.mem n _ right
    exact sound.dataSector_outer i (data i member).1 (data i member).2
      ⟨k.1,k.2,inodeReach_key n k reached,inner,same⟩

/-- A reservation that found all its sectors. -/
theorem Reserves.wellReserved (run : Reserves reserved dirty height 125 (inodeReach n) true (volume s) d (volume t) d')
    (sound : SoundMap kept (arena (volume s)) d) (held : ∀ x, kept x → bitmapTest s.vars.freeMap x = true)
    (small : n ≤ 16635) : WellReserved s t d d' n := by
  have after := sound.grow run.grow held
  have complete := run.cover rfl
  have data (i : Nat) (inside : i < n) : dataSector d' (volume t).device i ≠ 0 :=
    complete _ (inodeReach_data n i inside (by omega))
  have sectors := indexSectors_eq small data
  refine ⟨fun y member => ?_,?_,fun y member => ?_,run.grow.kept,fun pointer path key null taken => ?_,
    fun i inside null => ?_,fun y => ⟨fun marked => ?_,fun either => ?_⟩⟩
  · rw [sectors] at member
    obtain ⟨i,inside,rfl⟩ := List.mem_map.mp member
    exact data i (List.mem_range.mp inside)
  · rw [sectors]
    exact SoundMap.blocks_nodup after small complete
  · rw [sectors] at member
    rcases List.mem_append.mp member with leaf | inner
    · obtain ⟨i,inside,rfl⟩ := List.mem_map.mp leaf
      have reached := inodeReach_data n i (List.mem_range.mp inside) (by have := List.mem_range.mp inside; omega)
      exact after.marked _ _ (inodeReach_key n _ reached) (complete _ reached)
    · obtain ⟨k,reached,-,rfl⟩ := mem_pointerBlocks _ _ _ _ inner
      exact after.marked _ _ (inodeReach_key n k reached) (complete k reached)
  · exact Bool.not_eq_true _ ▸ (run.grow.fresh pointer path key null taken).1
  · obtain ⟨key,leaf⟩ := dataPath_key i (by omega)
    exact run.grow.blank _ _ key leaf null (data i inside)
  · cases before : bitmapTest s.vars.freeMap y with
    | true => exact Or.inl rfl
    | false => exact Or.inr (run.exact (inodeReach_nodup n) (inodeReach_key n) y before marked)
  · rcases either with before | ⟨k,reached,null,rfl⟩
    · exact run.allocated.mono y before
    · exact (run.grow.fresh k.1 k.2 (inodeReach_key n k reached) null (complete k reached)).2

end

/-- `inode_reserve` builds a well-formed block map. The sectors in use are `kept`, those
of the free map file among them, and those of the inode itself. -/
theorem inodeReserve_wellReserved {reserved dirty kept : Nat → Prop} (s : FileSys) (d : Sector) (length : Int)
    (ready : Ready reserved dirty (volume s)) (below : ∀ x, reserved x → kept x)
    (held : ∀ x, kept x → bitmapTest s.vars.freeMap x = true) (sound : SoundMap kept (arena (volume s)) d)
    (natural : 0 ≤ length) (limit : length ≤ 8517120)
    (success : ((inodeReserve inodeWriteAt d length).exec s).1.1 = true) :
    WellReserved s ((inodeReserve inodeWriteAt d length).exec s).2 d ((inodeReserve inodeWriteAt d length).exec s).1.2
      (bytesToSectors length) := by
  obtain ⟨done,run,result⟩ := inodeReserve_spec isWrite_inodeWriteAt ready.within (volume s) d length ready below held sound
    natural
  have small := (bytesToSectors_le length natural (by omega)).mpr limit
  rw [exec_volume] at run result
  rw [success,decide_eq_true small,Bool.and_true] at result
  rw [← result] at run
  exact run.wellReserved sound held small

/-- The blocks of a new file of 5000 bytes on the new device. -/
theorem formatted_blankStore_wellReserved :
    WellReserved (formatted blankStore) ((inodeReserve inodeWriteAt (newInodeDisk 5000 false) 5000).exec
        (formatted blankStore)).2 (newInodeDisk 5000 false)
      ((inodeReserve inodeWriteAt (newInodeDisk 5000 false) 5000).exec (formatted blankStore)).1.2 (bytesToSectors 5000) := by
  have reserve {reserved dirty : Nat → Prop} (s : FileSys) (mounted : Mounted reserved dirty (volume s)) (size : Int)
      (natural : 0 ≤ size) (limit : size ≤ 8517120) (room : 2 + blocksFor size ≤ (volume s).vars.freeMap.clearCount) :
      WellReserved s ((inodeReserve inodeWriteAt (newInodeDisk size false) size).exec s).2 (newInodeDisk size false)
        ((inodeReserve inodeWriteAt (newInodeDisk size false) size).exec s).1.2 (bytesToSectors size) := by
    have held := mounted.layout.held mounted.ready
    have sound := newInodeDisk_sound size false (fun y => reserved y ∨ Owns (rootArray (volume s)) y) (arena (volume s))
    obtain ⟨done,run,result⟩ := inodeReserve_spec isWrite_inodeWriteAt mounted.ready.within (volume s)
      (newInodeDisk size false) size mounted.ready (fun y taken => Or.inl taken) held sound natural
    have complete : done = true := by
      cases done with
      | true => rfl
      | false =>
        have short := (run.allocated.short rfl).2
        rw [missing_newInodeDisk] at short
        unfold blocksFor at room
        omega
    have fits := decide_eq_true ((bytesToSectors_le size natural (by omega)).mpr limit)
    rw [exec_volume,complete,Bool.true_and,fits] at result
    exact inodeReserve_wellReserved s (newInodeDisk size false) size mounted.ready (fun y taken => Or.inl taken) held sound
      natural limit result
  obtain ⟨reserved,dirty,sane⟩ := formatted_sane blankStore blankStore_formattable
  exact reserve (formatted blankStore) sane.mounted 5000 (by decide) (by decide) formatted_blankStore_clear.1

end MyShell.FS
