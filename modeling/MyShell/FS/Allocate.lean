import MyShell.FS.Transfer

/-! Allocation and release of sectors while the free map is a file of its own. The
file is as long as the bitmap from its creation on, so writing it allocates nothing. -/
namespace MyShell.FS
open BlockProgram PointerForest Bitmap

/-- The open free map file `file` with the inode `d`: it covers the bitmap, its blocks
are reserved, the dirty ones are its data blocks, and they hold the bitmap. -/
structure FreeMapOpen (reserved dirty : Nat → Prop) (s : Volume) (file : Nat) (d : Sector) : Prop where
  data : (s.vars.handles.inode (s.vars.handles.file file).inode).data = d
  writable : (s.vars.handles.inode (s.vars.handles.file file).inode).denyWriteCnt = 0
  total : d.length = byteCnt s.vars.freeMap.bitCnt
  limit : byteCnt s.vars.freeMap.bitCnt ≤ 8517120
  sound : SoundMap (fun _ => False) (arena s) d
  present : Present d s.device (byteCnt s.vars.freeMap.bitCnt)
  nodes : ∀ pointer path, Key blocks height isPointer pointer path →
    node blocks s.device (d.word pointer) path ≠ 0 → reserved (node blocks s.device (d.word pointer) path)
  dirty : ∀ x, dirty x ↔ ∃ k, 512*k < byteCnt s.vars.freeMap.bitCnt ∧ dataSector d s.device k = x
  synced : fileBytes d s.device 0 (byteCnt s.vars.freeMap.bitCnt) = bitmapBytes s.vars.freeMap

/-- A state in which sectors can be allocated. The reserved blocks stay allocated and,
except for the dirty ones, untouched. -/
structure Ready (reserved dirty : Nat → Prop) (s : Volume) : Prop where
  packed : s.vars.freeMap.Packed
  positive : 0 < s.vars.freeMap.bitCnt
  small : s.vars.freeMap.bitCnt ≤ noSector
  origin : bitmapTest s.vars.freeMap 0 = true
  held : ∀ x, reserved x → bitmapTest s.vars.freeMap x = true
  within : ∀ x, dirty x → reserved x
  closed : s.vars.handles.freeMapFile = none → ∀ x, ¬dirty x
  opened : ∀ file, s.vars.handles.freeMapFile = some file → ∃ d, FreeMapOpen reserved dirty s file d

/-- A write that itself is one step of `inode_write_at`, whatever it ends in. -/
def IsWrite (write : Writer) : Prop :=
  ∀ s : Volume, ∃ inner : Writer, ∀ inode buffer size offset,
    (write inode buffer size offset).exec s = (inodeWriteAtStep inner inode buffer size offset).exec s

theorem isWrite_depth (depth : Nat) : IsWrite (inodeWriteAtDepth (depth + 1)) :=
  fun _ => ⟨inodeWriteAtDepth depth,fun _ _ _ _ => rfl⟩

/-- `inode_write_at` allocates through a write of its own. -/
theorem inodeWriteAt_step (s : Volume) : ∃ write, IsWrite write ∧ ∀ inode buffer size offset,
    (inodeWriteAt inode buffer size offset).exec s = (inodeWriteAtStep write inode buffer size offset).exec s := by
  refine ⟨inodeWriteAtDepth (s.vars.freeMap.bitCnt + 1),isWrite_depth _,fun inode buffer size offset => ?_⟩
  simp only [inodeWriteAt,Task.exec_bind,Task.exec_get,inodeWriteAtDepth]

theorem isWrite_inodeWriteAt : IsWrite inodeWriteAt := fun s => by
  obtain ⟨write,_,same⟩ := inodeWriteAt_step s
  exact ⟨write,same⟩

theorem marked_small (b : Bitmap) (packed : b.Packed) (small : b.bitCnt ≤ noSector) (x : Nat)
    (marked : bitmapTest b x = true) : x < noSector := by
  by_contra beyond
  rw [packed.unused x (by omega)] at marked
  contradiction

/-- A write inside the file: no sector is allocated. -/
theorem writeAtStep_inside (inner : Writer) (s : Volume) (reserved : Nat → Prop) (inode : Nat) (d : Sector)
    (buffer : List Byte) (size ofs length : Nat) (packed : s.vars.freeMap.Packed)
    (small : s.vars.freeMap.bitCnt ≤ noSector) (data : (s.vars.handles.inode inode).data = d)
    (writable : (s.vars.handles.inode inode).denyWriteCnt = 0) (total : d.length = length)
    (limit : length ≤ 8517120) (sound : SoundMap reserved (arena s) d) (present : Present d s.device length)
    (some : 0 < size) (inside : ofs + size ≤ length) :
    ∃ mem, (inodeWriteAtStep inner inode buffer size ofs).exec s = ((size : Int),{s with device := mem}) ∧
      Written d s.device mem buffer 0 ofs size := by
  have last : (byteToSector d (i32 (i32 ((ofs : Int) + size) - 1))).exec s =
      (dataSector d s.device ((ofs + size - 1) / 512),s) := by
    rw [i32_of_bounds ((ofs : Int) + size) (by omega) (by omega),i32_of_bounds _ (by omega) (by omega),
      show (ofs : Int) + size - 1 = (ofs + size - 1 : Nat) by omega]
    exact exec_byteToSector d _ length s total limit present (by omega)
  have block := present ((ofs + size - 1) / 512) (by omega)
  have marked := sound.marked _ _ (dataPath_key ((ofs + size - 1) / 512) (by omega)).1 block
  have valid : dataSector d s.device ((ofs + size - 1) / 512) ≠ noSector :=
    Nat.ne_of_lt (marked_small s.vars.freeMap packed small _ marked)
  obtain ⟨mem,run,written⟩ := writeLoop_spec d length total limit buffer reserved size size ofs 0 s sound present
    (Nat.le_refl _) inside
  refine ⟨mem,?_,written⟩
  rw [Nat.zero_add] at run
  unfold inodeWriteAtStep
  simp only [Task.exec_bind,exec_getHandles,data,writable,ne_eq,not_true,if_false,last,if_neg valid,
    Task.exec_pure,Int.toNat_natCast,if_true]
  exact run

section
variable {reserved dirty : Nat → Prop} {s : Volume} {write : Writer}

/-- Readiness survives what touches neither the reserved blocks nor their marks. -/
theorem FreeMapOpen.of {file : Nat} {d : Sector} (t : Volume) (opened : FreeMapOpen reserved dirty s file d)
    (handles : t.vars.handles = s.vars.handles) (size : t.vars.freeMap.bitCnt = s.vars.freeMap.bitCnt)
    (held : ∀ x, reserved x → bitmapTest t.vars.freeMap x = true)
    (same : ∀ x, x ≠ 0 → reserved x → ¬dirty x → t.device x = s.device x)
    (synced : ∀ d, FreeMapOpen reserved dirty s file d → (∀ k < 16635, dataSector d t.device k = dataSector d s.device k) →
      fileBytes d t.device 0 (byteCnt t.vars.freeMap.bitCnt) = bitmapBytes t.vars.freeMap) :
    FreeMapOpen reserved dirty t file d := by
  have inner (x : Nat) (present : x ≠ 0) (above : Inner d s.device x) : t.device x = s.device x := by
    obtain ⟨pointer,path,key,deep,here⟩ := above
    apply same x present (here ▸ opened.nodes pointer path key (here.symm ▸ present))
    rw [opened.dirty]
    rintro ⟨k,near,met⟩
    have limit := opened.limit
    apply opened.sound.dataSector_outer k (by omega) (opened.present k near)
    exact ⟨pointer,path,key,deep,here.trans met.symm⟩
  have nodes := opened.sound.node_eq t.device (fun x _ _ present above => inner x present above)
  have sectors (k : Nat) (inside : k < 16635) : dataSector d t.device k = dataSector d s.device k :=
    nodes _ _ (dataPath_key k inside).1
  have limit := opened.limit
  refine ⟨by rw [handles]; exact opened.data,by rw [handles]; exact opened.writable,by rw [size]; exact opened.total,
    by rw [size]; exact limit,?_,?_,?_,?_,synced d opened sectors⟩
  · constructor
    · intro pointer path key present
      change node blocks t.device (d.word pointer) path ≠ 0 at present
      change bitmapTest t.vars.freeMap (node blocks t.device (d.word pointer) path) = true
      rw [nodes pointer path key] at present ⊢
      exact held _ (opened.nodes pointer path key present)
    · exact fun _ _ _ _ => not_false
    · intro i p j q key other present met
      change node blocks t.device (d.word i) p ≠ 0 at present
      change node blocks t.device (d.word i) p = node blocks t.device (d.word j) q at met
      rw [nodes i p key] at present met
      rw [nodes j q other] at met
      exact opened.sound.single i p j q key other present met
  · intro k near
    rw [size] at near
    rw [sectors k (by omega)]
    exact opened.present k near
  · intro pointer path key present
    rw [nodes pointer path key] at present ⊢
    exact opened.nodes pointer path key present
  · intro x
    rw [size,opened.dirty]
    constructor
    · rintro ⟨k,near,met⟩
      exact ⟨k,near,(sectors k (by omega)).trans met⟩
    · rintro ⟨k,near,met⟩
      exact ⟨k,near,(sectors k (by omega)).symm.trans met⟩

/-- The bytes of the free map file are those of its dirty blocks. -/
theorem FreeMapOpen.bytes_eq {file : Nat} {d : Sector} (opened : FreeMapOpen reserved dirty s file d)
    (mem : Nat → Sector) (sectors : ∀ k < 16635, dataSector d mem k = dataSector d s.device k)
    (same : ∀ x, dirty x → mem x = s.device x) :
    fileBytes d mem 0 (byteCnt s.vars.freeMap.bitCnt) = bitmapBytes s.vars.freeMap := by
  rw [← opened.synced]
  have limit := opened.limit
  apply List.map_congr_left
  intro i member
  have inside := List.mem_range.mp member
  have block := same (dataSector d s.device ((0 + i) / 512)) ((opened.dirty _).mpr ⟨_,by omega,rfl⟩)
  unfold fileByte
  rw [sectors _ (by omega),block]

theorem Ready.clean_origin (ready : Ready reserved dirty s) : ¬dirty 0 := by
  cases pointer : s.vars.handles.freeMapFile with
  | none => exact ready.closed pointer 0
  | some file =>
    obtain ⟨d,opened⟩ := ready.opened file pointer
    rw [opened.dirty]
    exact fun ⟨k,near,null⟩ => opened.present k near null

/-- Writes to blocks that are not reserved, and to block 0. -/
theorem Ready.writes (ready : Ready reserved dirty s) (mem : Nat → Sector)
    (same : ∀ x, x ≠ 0 → reserved x → mem x = s.device x) : Ready reserved dirty ⟨s.vars,mem⟩ := by
  refine ⟨ready.packed,ready.positive,ready.small,ready.origin,ready.held,ready.within,ready.closed,fun file pointer => ?_⟩
  obtain ⟨d,opened⟩ := ready.opened file pointer
  refine ⟨d,FreeMapOpen.of ⟨s.vars,mem⟩ opened rfl rfl ready.held (fun x present taken _ => same x present taken) ?_⟩
  intro e other sectors
  apply other.bytes_eq mem sectors
  intro x stained
  exact same x (fun null => ready.clean_origin (null ▸ stained)) (ready.within x stained)

theorem Ready.update (ready : Ready reserved dirty s) (x : Nat) (source : Sector) (free : ¬reserved x) :
    Ready reserved dirty {s with device := Function.update s.device x source} :=
  ready.writes _ fun y _ taken => Function.update_of_ne (fun same : y = x => free (same ▸ taken)) _ _

/-- Other handles than those of the free map file may change. -/
theorem Ready.handles (ready : Ready reserved dirty s) (h : Handles) (file : h.freeMapFile = s.vars.handles.freeMapFile)
    (same : ∀ f, s.vars.handles.freeMapFile = some f →
      h.inode (h.file f).inode = s.vars.handles.inode (s.vars.handles.file f).inode) :
    Ready reserved dirty {s with vars.handles := h} := by
  refine ⟨ready.packed,ready.positive,ready.small,ready.origin,ready.held,ready.within,
    fun none => ready.closed (file.symm.trans none),fun f pointer => ?_⟩
  have pointer' := file.symm.trans pointer
  obtain ⟨d,opened⟩ := ready.opened f pointer'
  exact ⟨d,(congrArg Inode.data (same f pointer')).trans opened.data,
    (congrArg Inode.denyWriteCnt (same f pointer')).trans opened.writable,opened.total,opened.limit,opened.sound,
    opened.present,opened.nodes,opened.dirty,opened.synced⟩

/-- The bitmap changes and is written to its file, if that is open. -/
theorem freeMapWrite_spec (ready : Ready reserved dirty s) (isWrite : IsWrite write) (b : Bitmap) (packed : b.Packed)
    (size : b.bitCnt = s.vars.freeMap.bitCnt) (origin : bitmapTest b 0 = true)
    (held : ∀ x, reserved x → bitmapTest b x = true) :
    ∃ mem, (freeMapWrite write).exec {s with vars.freeMap := b} =
        (true,⟨{s.vars with freeMap := b},mem⟩) ∧ (∀ x, ¬dirty x → mem x = s.device x) ∧
      Ready reserved dirty ⟨{s.vars with freeMap := b},mem⟩ := by
  unfold freeMapWrite
  cases pointer : s.vars.handles.freeMapFile with
  | none =>
    refine ⟨s.device,?_,fun _ _ => rfl,packed,?_,?_,origin,held,ready.within,ready.closed,?_⟩
    · simp only [Task.exec_bind,exec_getHandles,pointer]
      rfl
    · exact size ▸ ready.positive
    · exact size ▸ ready.small
    · intro file opened
      rw [pointer] at opened
      contradiction
  | some file =>
    obtain ⟨d,opened⟩ := ready.opened file pointer
    have limit := opened.limit
    have sound : SoundMap (fun _ => False) (arena {s with vars.freeMap := b}) d := by
      refine ⟨fun pointer path key present => ?_,fun _ _ _ _ => not_false,opened.sound.single⟩
      exact held _ (opened.nodes pointer path key present)
    have bytes : byteCnt b.bitCnt = byteCnt s.vars.freeMap.bitCnt := congrArg byteCnt size
    have positive : 0 < byteCnt b.bitCnt := by
      have some := ready.positive
      unfold byteCnt elemCnt
      omega
    obtain ⟨inner,steps⟩ := isWrite {s with vars.freeMap := b}
    obtain ⟨mem,run,written⟩ := writeAtStep_inside inner {s with vars.freeMap := b} (fun _ => False)
      (s.vars.handles.file file).inode d (bitmapBytes b) (byteCnt b.bitCnt) 0 (byteCnt b.bitCnt) packed
      (size ▸ ready.small) opened.data opened.writable (bytes ▸ opened.total) (bytes ▸ limit) sound
      (bytes ▸ opened.present) positive (by omega)
    have clean (x : Nat) (untouched : ¬dirty x) : mem x = s.device x := by
      apply written.frame
      rw [opened.dirty] at untouched
      exact fun k _ near same => untouched ⟨k,by omega,same⟩
    refine ⟨mem,?_,clean,packed,size ▸ ready.positive,size ▸ ready.small,origin,held,ready.within,ready.closed,?_⟩
    · simp only [Task.exec_bind,exec_getHandles,pointer,bitmapWrite,fileWriteAt,Task.exec_get]
      rw [steps,show (0 : Int) = (0 : Nat) by rfl,run]
      simp
    · intro other same
      obtain rfl : file = other := Option.some.inj (pointer.symm.trans same)
      refine ⟨d,FreeMapOpen.of ⟨{s.vars with freeMap := b},mem⟩ opened rfl size held
        (fun x _ _ untouched => clean x untouched) ?_⟩
      rintro e other sectors
      obtain rfl : d = e := opened.data.symm.trans other.data
      apply List.ext_getElem
      · simp
      · intro i left right
        have inside : i < byteCnt b.bitCnt := by simpa using left
        have here := written.bytes i (by omega) (opened.present (i / 512) (by omega))
        rw [if_pos ⟨by omega,by omega⟩] at here
        simp only [fileBytes,List.getElem_map,List.getElem_range,Nat.zero_add,fileByte]
        rw [sectors _ (by omega),here,List.getD_eq_getElem?_getD,Nat.zero_add,Nat.sub_zero,
          List.getElem?_eq_getElem right,Option.getD_some]

theorem Ready.vars (ready : Ready reserved dirty s) (t : Volume) (freeMap : t.vars.freeMap = s.vars.freeMap)
    (handles : t.vars.handles = s.vars.handles) (device : t.device = s.device) : Ready reserved dirty t := by
  obtain ⟨⟨_,_,_,_⟩,_⟩ := t
  obtain ⟨⟨_,_,_,_⟩,_⟩ := s
  simp only at freeMap handles device
  subst freeMap handles device
  refine ⟨ready.packed,ready.positive,ready.small,ready.origin,ready.held,ready.within,ready.closed,fun file pointer => ?_⟩
  obtain ⟨d,opened⟩ := ready.opened file pointer
  exact ⟨d,opened.data,opened.writable,opened.total,opened.limit,opened.sound,opened.present,opened.nodes,
    opened.dirty,opened.synced⟩

theorem allocate_full (write : Writer) (s : Volume) (full : bitmapScan s.vars.freeMap 0 1 false = none) :
    (freeMapAllocate write 1).exec s = (none,{s with vars.allocations := s.vars.allocations ++ [none]}) := by
  unfold freeMapAllocate bitmapScanAndFlip
  simp only [Task.exec_bind,Task.exec_get,full]
  rfl

/-- `free_map_allocate` for one sector: the sector was free, and but for its mark only
dirty blocks change. It fails only when no sector is free. -/
theorem allocate_spec (ready : Ready reserved dirty s) (isWrite : IsWrite write) :
    (∃ x mem, (freeMapAllocate write 1).exec s =
        (some x,⟨{s.vars with
          freeMap := bitmapSet s.vars.freeMap x true
          allocations := s.vars.allocations ++ [some x]},mem⟩) ∧
        x < s.vars.freeMap.bitCnt ∧ bitmapTest s.vars.freeMap x = false ∧
        (∀ y, ¬dirty y → mem y = s.device y) ∧
        Ready reserved dirty ⟨{s.vars with
          freeMap := bitmapSet s.vars.freeMap x true
          allocations := s.vars.allocations ++ [some x]},mem⟩) ∨
      bitmapScan s.vars.freeMap 0 1 false = none := by
  cases found : bitmapScan s.vars.freeMap 0 1 false with
  | none => exact Or.inr rfl
  | some x =>
    left
    unfold freeMapAllocate bitmapScanAndFlip
    obtain ⟨inside,clear⟩ := scan_some _ _ found
    have marks (y : Nat) (marked : bitmapTest s.vars.freeMap y = true) :
        bitmapTest (bitmapSet s.vars.freeMap x true) y = true := by
      rw [test_set _ ready.packed.length _ _ _ inside]
      split
      · rfl
      · exact marked
    obtain ⟨mem,run,clean,after⟩ := freeMapWrite_spec ready isWrite (bitmapSet s.vars.freeMap x true)
      (set_packed _ ready.packed x true inside) (by simp) (marks 0 ready.origin)
      (fun y taken => marks y (ready.held y taken))
    refine ⟨x,mem,?_,inside,clear,clean,after.vars _ rfl rfl rfl⟩
    simp only [Task.exec_bind,Task.exec_get,found,Task.exec_set]
    rw [show bitmapSetMultiple s.vars.freeMap x 1 (!false) = bitmapSet s.vars.freeMap x true from rfl,run]
    rfl

/-- Marked sectors are sectors of the bitmap. -/
theorem Ready.inside (ready : Ready reserved dirty s) (y : Nat) (marked : bitmapTest s.vars.freeMap y = true) :
    y < s.vars.freeMap.bitCnt := by
  by_contra beyond
  rw [ready.packed.unused y (Nat.le_of_not_lt beyond)] at marked
  exact Bool.false_ne_true marked

/-- `free_map_release` of one marked sector that is not reserved. -/
theorem release_spec (ready : Ready reserved dirty s) (isWrite : IsWrite write) (x : Nat)
    (held : bitmapTest s.vars.freeMap x = true) (origin : x ≠ 0) (free : ¬reserved x) :
    ∃ mem, (freeMapRelease write x 1).exec s =
        ((),⟨{s.vars with freeMap := bitmapSet s.vars.freeMap x false},mem⟩) ∧
      (∀ y, ¬dirty y → mem y = s.device y) ∧
      Ready reserved dirty ⟨{s.vars with freeMap := bitmapSet s.vars.freeMap x false},mem⟩ := by
  have inside := ready.inside x held
  have marks (y : Nat) (other : y ≠ x) (marked : bitmapTest s.vars.freeMap y = true) :
      bitmapTest (bitmapSet s.vars.freeMap x false) y = true := by
    rw [test_set _ ready.packed.length _ _ _ inside,if_neg other]
    exact marked
  obtain ⟨mem,run,clean,after⟩ := freeMapWrite_spec ready isWrite (bitmapSet s.vars.freeMap x false)
    (set_packed _ ready.packed x false inside) (by simp) (marks 0 origin.symm ready.origin)
    (fun y taken => marks y (fun same => free (same ▸ taken)) (ready.held y taken))
  refine ⟨mem,?_,clean,after⟩
  unfold freeMapRelease
  simp only [Task.exec_bind,Task.exec_get,all_one,held,panicUnless,if_true,Task.exec_pure,Task.exec_modify]
  rw [show bitmapSetMultiple s.vars.freeMap x 1 false = bitmapSet s.vars.freeMap x false from rfl,run]

end
end MyShell.FS
