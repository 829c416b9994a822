import MyShell.FS.Format

/-! The file system on its device, from the start of the program: formatting, and
unmounting and mounting again. -/
namespace MyShell.FS
open BlockProgram PointerForest Bitmap

theorem flush_size (c : BufferCache) (slot : Fin bufferCacheSize) :
    (bufferCacheFlush c slot).fsDevice.size = c.fsDevice.size := by
  unfold bufferCacheFlush
  dsimp only
  split <;> rfl

theorem evictLoop_size (fuel : Nat) (c : BufferCache) : (evictLoop fuel c).fsDevice.size = c.fsDevice.size := by
  induction fuel generalizing c with
  | zero => rfl
  | succ fuel ih =>
    unfold evictLoop
    dsimp only
    split
    · rfl
    · split
      · exact ih _
      · rfl

theorem evict_size (c : BufferCache) : (bufferCacheEvict c).2.fsDevice.size = c.fsDevice.size := by
  unfold bufferCacheEvict
  dsimp only
  split
  · exact evictLoop_size _ c
  · exact (flush_size _ _).trans (evictLoop_size _ c)

theorem slot_size (c : BufferCache) (sector : Nat) : (bufferCacheSlot c sector).2.fsDevice.size = c.fsDevice.size := by
  unfold bufferCacheSlot
  split
  · rfl
  · exact evict_size c

theorem flushOccupied_size (slots : List (Fin bufferCacheSize)) (c : BufferCache) :
    (flushOccupied slots c).fsDevice.size = c.fsDevice.size := by
  induction slots generalizing c with
  | nil => rfl
  | cons slot slots ih =>
    unfold flushOccupied
    rw [ih]
    split
    · exact flush_size c slot
    · rfl

theorem close_cache (c : CacheStore) : c.close.cache = bufferCacheClose c.cache := by
  simp only [CacheStore.close]

theorem close_sectors (c : CacheStore) : c.close.cache.fsDevice.sectors = c.cache.view := by
  funext sector
  rw [close_cache,BufferCache.close_spec c.cache c.coherent sector]

theorem close_size (c : CacheStore) : c.close.cache.fsDevice.size = c.cache.fsDevice.size := by
  rw [close_cache,bufferCacheClose,flushOccupied_size]

/-- The number of sectors of the device, `block_size(fs_device)`. -/
def deviceSize (s : FileSys) : Nat := s.device.cache.fsDevice.size

theorem exec_deviceSize {α : Type} (task : FsM α) (s : FileSys) : deviceSize (task.exec s).2 = deviceSize s :=
  run_preserves (fun c : CacheStore => c.cache.fsDevice.size = deviceSize s)
    (fun c sector same => (slot_size c.cache sector).trans same)
    (fun c sector _ same => (slot_size c.cache sector).trans same) _ _ rfl

/-- The variables when the program starts. -/
def bootVars : Globals where
  freeMap := ⟨0,[]⟩
  handles :=
    {inodes := .empty, openInodes := [], files := .empty, dirs := .empty, freeMapFile := none, cwd := none, fileTable := []}
  panics := 0
  allocations := []

/-- The devices that `do_format` does not panic on: there are bits for all sectors but
the last, and sectors for the free map file and for the root directory. -/
def Formattable (size : Nat) : Prop :=
  size ≤ 4294967296 ∧ byteCnt (size - 1) ≤ 8517120 ∧ 2 + blocksFor (byteCnt (size - 1)) + blocksFor 36000 ≤ size - 1

instance (size : Nat) : Decidable (Formattable size) := inferInstanceAs (Decidable (_ ∧ _ ∧ _))

/-- The bitmap of `free_map_init`. -/
def firstMap (size : Nat) : Bitmap := bitmapMark (bitmapMark (bitmapCreate (size - 1)) freeMapSector) rootDirSector

theorem clearCount_create (n : Nat) : (bitmapCreate n).clearCount = n := by
  unfold clearCount bitmapCount bitmapSize
  rw [create_bitCnt]
  refine Eq.trans (List.countP_eq_length.mpr fun i _ => ?_) (List.length_range)
  rw [create_test]
  rfl

theorem firstMap_spec (size : Nat) (some : 2 ≤ size - 1) :
    (firstMap size).Packed ∧ (firstMap size).bitCnt = size - 1 ∧ bitmapTest (firstMap size) freeMapSector = true ∧
      bitmapTest (firstMap size) rootDirSector = true ∧ (firstMap size).clearCount + 2 = size - 1 := by
  have marks : firstMap size = bitmapSet (bitmapSet (bitmapCreate (size - 1)) freeMapSector true) rootDirSector true := rfl
  rw [marks]
  have packed := create_packed (size - 1)
  have count := create_bitCnt (size - 1)
  have zero : freeMapSector < (bitmapCreate (size - 1)).bitCnt := by
    rw [count]
    exact Nat.lt_of_lt_of_le (by decide) some
  have first := set_packed _ packed freeMapSector true zero
  have size' : (bitmapSet (bitmapCreate (size - 1)) freeMapSector true).bitCnt = size - 1 := (set_bitCnt _ _ _).trans count
  have inside : rootDirSector < (bitmapSet (bitmapCreate (size - 1)) freeMapSector true).bitCnt := by
    rw [size']
    exact some
  have one := clearCount_mark _ packed.length freeMapSector zero (create_test _ _)
  have clear : bitmapTest (bitmapSet (bitmapCreate (size - 1)) freeMapSector true) rootDirSector = false := by
    rw [test_set _ packed.length _ _ _ zero,if_neg (by decide),create_test]
  have two := clearCount_mark _ first.length rootDirSector inside clear
  rw [clearCount_create] at one
  refine ⟨set_packed _ first rootDirSector true inside,(set_bitCnt _ _ _).trans size',?_,?_,by omega⟩
  · rw [test_set _ first.length _ _ _ inside,if_neg (by decide),test_set _ packed.length _ _ _ zero,if_pos rfl]
  · rw [test_set _ first.length _ _ _ inside,if_pos rfl]

/-- `filesys_init` on the plain device. -/
def initState (g : Globals) (size : Nat) (mem : Nat → Sector) : Volume :=
  ⟨{g with freeMap := firstMap size, handles := {g.handles with openInodes := []}},mem⟩

theorem volume_filesysInit (format : Bool) (s : FileSys) :
    volume (filesysInit format s) =
      ((initFiles format).exec (initState s.vars (deviceSize s) s.device.cache.fsDevice.sectors)).2 := by
  have start : volume ⟨((initVars (deviceSize s)).exec s).2.vars,((initVars (deviceSize s)).exec s).2.device.init⟩ =
      initState s.vars (deviceSize s) s.device.cache.fsDevice.sectors := by
    unfold initVars inodeInit freeMapInit initState volume
    simp only [Task.exec_bind,Task.exec_modify]
    have seen : s.device.init.cache.view = s.device.cache.fsDevice.sectors := funext (BufferCache.init_view _)
    rw [seen]
    rfl
  rw [← start,exec_volume]
  rfl

/-- The file system that `filesys_init(true)` makes when the program starts. -/
def formatted (c : CacheStore) : FileSys := filesysInit true ⟨bootVars,c⟩

theorem formatted_spec (c : CacheStore) (fits : Formattable c.cache.fsDevice.size) :
    ∃ reserved dirty, Formatted reserved dirty
      (initState bootVars c.cache.fsDevice.size c.cache.fsDevice.sectors) (volume (formatted c)) := by
  obtain ⟨small,limit,room⟩ := fits
  obtain ⟨packed,size,origin,root,count⟩ := firstMap_spec c.cache.fsDevice.size (by omega)
  have blank : Blank (initState bootVars c.cache.fsDevice.size c.cache.fsDevice.sectors) := by
    refine ⟨rfl,rfl,rfl,packed,?_,?_,origin,root,?_,?_⟩
    · change 0 < (firstMap c.cache.fsDevice.size).bitCnt
      omega
    · change (firstMap c.cache.fsDevice.size).bitCnt ≤ 4294967295
      omega
    · change byteCnt (firstMap c.cache.fsDevice.size).bitCnt ≤ 8517120
      rw [size]
      exact limit
    · change blocksFor (byteCnt (firstMap c.cache.fsDevice.size).bitCnt) ≤ (firstMap c.cache.fsDevice.size).clearCount
      rw [size]
      omega
  obtain ⟨reserved,dirty,t,run,made⟩ := initFiles_spec blank (by
    change blocksFor (byteCnt (firstMap c.cache.fsDevice.size).bitCnt) + blocksFor 36000 ≤
      (firstMap c.cache.fsDevice.size).clearCount
    rw [size]
    omega)
  refine ⟨reserved,dirty,?_⟩
  unfold formatted
  rw [volume_filesysInit]
  change Formatted reserved dirty _
    ((initFiles true).exec (initState bootVars c.cache.fsDevice.size c.cache.fsDevice.sectors)).2
  rw [run]
  exact made

/-- Between the operations the inode of the free map file on the device is the one in memory. -/
def Persisted (s : Volume) : Prop := ∀ f, s.vars.handles.freeMapFile = some f →
  (s.vars.handles.inode (s.vars.handles.file f).inode).data = s.device freeMapSector

/-- `filesys_done` and `filesys_init(false)` on the disk it leaves. -/
def remount (s : FileSys) : FileSys := filesysInit false (filesysDone s)

section
variable {reserved dirty : Nat → Prop} {s t : Volume}

theorem exec_initFiles (s : Volume) (t : Volume) (reading : freeMapOpen.exec s = ((),t)) :
    ((initFiles false).exec s).2 = withHandles t {t.vars.handles with fileTable := []} := by
  unfold initFiles initFileTable
  simp only [Task.exec_bind,Bool.false_eq_true,if_false,Task.exec_pure,reading,Task.exec_modify]
  rfl

/-- Mounting the device of a mounted file system, with any bitmap of the right size. -/
theorem initFiles_remount (mounted : Mounted reserved dirty s) (persisted : Persisted s) (device : t.device = s.device)
    (size : t.vars.freeMap.bitCnt = s.vars.freeMap.bitCnt) (idle : t.vars.handles.openInodes = [])
    (unset : t.vars.handles.cwd = none) :
    ∃ u, ((initFiles false).exec t).2 = u ∧ u.device = s.device ∧ u.vars.freeMap = s.vars.freeMap ∧
      u.vars.panics = t.vars.panics ∧ Mounted reserved dirty u ∧ Persisted u := by
  obtain ⟨f,p,i,mapped⟩ := mounted.idle.mapped
  obtain ⟨d,opened⟩ := mounted.ready.opened f mapped.pointer
  have inode : t.device freeMapSector = d := by
    rw [device,← persisted f mapped.pointer]
    exact opened.data
  obtain ⟨reading,reopened⟩ := freeMapOpen_spec opened mounted.ready.packed mounted.ready.positive device inode size
    fun p member => by
      rw [idle] at member
      exact absurd member List.not_mem_nil
  have final := exec_initFiles t _ reading
  generalize result : withHandles ⟨{t.vars with freeMap := s.vars.freeMap, handles := t.vars.handles.openMap d},t.device⟩
    {t.vars.handles.openMap d with fileTable := []} = u
  have bits : u.vars.freeMap = s.vars.freeMap := result ▸ rfl
  have same : u.device = s.device := result ▸ device
  have after : u.vars.handles = {t.vars.handles.openMap d with fileTable := []} := result ▸ rfl
  have again : FreeMapOpen reserved dirty u t.vars.handles.files.next d := by
    refine opened.reopen same bits ?_ ?_
    · rw [after]
      exact reopened.data
    · rw [after]
      exact reopened.writable
  have fresh := openMap_mapped idle d
  have array : rootArray u = rootArray s := by
    unfold rootArray
    rw [same]
  refine ⟨u,final.trans result,same,bits,result ▸ rfl,⟨?_,mounted.ready.reopen again bits (by rw [after]; rfl),
    mounted.origin,?_,array.symm ▸ mounted.root,array.symm ▸ mounted.apart,?_⟩,fun g pointer => ?_⟩
  · rw [array,same]
    exact mounted.layout.congr same bits
  · rw [after]
    exact ⟨unset,rfl,openMap_only idle d,_,_,_,fresh.pointer,fresh.file,fresh.cell,fresh.once,fresh.kept,fresh.alone,fresh.sector,fresh.held⟩
  · rw [array,same]
    exact mounted.regular
  · obtain rfl : t.vars.handles.files.next = g := by
      rw [after] at pointer
      exact Option.some.inj pointer
    rw [again.data,same,← device,inode]

end

/-- The device after `filesys_done` holds what the cache showed before. -/
theorem filesysDone_spec {reserved dirty : Nat → Prop} (s : FileSys) (mounted : Mounted reserved dirty (volume s)) :
    (filesysDone s).device.cache.fsDevice.sectors = (volume s).device ∧ deviceSize (filesysDone s) = deviceSize s ∧
      (filesysDone s).vars.handles.cwd = none ∧ (filesysDone s).vars.panics = s.vars.panics := by
  obtain ⟨f,p,i,mapped⟩ := mounted.idle.mapped
  have closing := exec_freeMapClose mapped.pointer mapped.file mapped.cell mapped.once mapped.kept
  rw [exec_volume] at closing
  have after := congrArg Prod.snd closing
  dsimp only at after
  generalize closed : (freeMapClose.exec s).2 = u at after
  have table : u.vars.handles.fileTable = [] := by
    have vars : u.vars.handles = (volume s).vars.handles.closeMap f := congrArg (fun v : Volume => v.vars.handles) after
    rw [vars]
    exact mounted.idle.table
  have done : filesysDone s = ⟨{u.vars with handles := {u.vars.handles with fileTable := []}},u.device.close⟩ := by
    unfold filesysDone
    rw [closed]
    unfold freeFileTable getHandles setHandles
    simp only [Task.exec_bind,Task.exec_get,Task.exec_pure,Task.exec_modify,table]
    unfold closeAll
    rw [Task.exec_pure]
  rw [done]
  refine ⟨?_,?_,?_,?_⟩
  · rw [close_sectors]
    exact congrArg Machine.device after
  · have size := exec_deviceSize freeMapClose s
    rw [closed] at size
    unfold deviceSize at size ⊢
    dsimp only
    rw [close_size]
    exact size
  · have vars : u.vars.handles = (volume s).vars.handles.closeMap f := congrArg (fun v : Volume => v.vars.handles) after
    dsimp only
    rw [vars]
    exact mounted.idle.unset
  · exact congrArg (fun v : Volume => v.vars.panics) after

/-- The file system after it was unmounted and mounted again. -/
theorem remount_spec {reserved dirty : Nat → Prop} (s : FileSys) (mounted : Mounted reserved dirty (volume s))
    (persisted : Persisted (volume s)) (size : s.vars.freeMap.bitCnt = deviceSize s - 1) :
    (volume (remount s)).device = (volume s).device ∧ (remount s).vars.freeMap = s.vars.freeMap ∧
      (remount s).vars.panics = s.vars.panics ∧ Mounted reserved dirty (volume (remount s)) ∧
      Persisted (volume (remount s)) := by
  obtain ⟨sectors,same,unset,panics⟩ := filesysDone_spec s mounted
  have room := mounted.ready.inside _ (mounted.layout.marked _ owns_root)
  change rootDirSector < s.vars.freeMap.bitCnt at room
  have count := (firstMap_spec (deviceSize (filesysDone s)) (by
    rw [same,← size]
    exact room)).2.1
  obtain ⟨u,run,device,bits,kept,after,still⟩ := initFiles_remount (t := initState (filesysDone s).vars
    (deviceSize (filesysDone s)) (filesysDone s).device.cache.fsDevice.sectors) mounted persisted sectors
    (count.trans (by rw [same,← size]; rfl)) rfl unset
  have final : volume (remount s) = u := (volume_filesysInit false (filesysDone s)).trans run
  rw [final]
  refine ⟨device,?_,?_,after,still⟩
  · exact (congrArg (fun v : Volume => v.vars.freeMap) final).trans bits
  · exact ((congrArg (fun v : Volume => v.vars.panics) final).trans kept).trans panics

end MyShell.FS
