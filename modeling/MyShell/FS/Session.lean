import MyShell.FS.Mount

/-! Runs of the file system: formatting, and then creating, removing, writing and reading
files in any order, on the device behind its cache. -/
namespace MyShell.FS
open BlockProgram PointerForest Bitmap

/-- An operation of a run. A file is written and read through the inode of its entry. -/
inductive FileOp where
  | create (stale : List Byte) (path : CString) (size : Int)
  | remove (path : CString)
  | write (sector : Nat) (buffer : List Byte) (size offset : Int)
  | read (sector : Nat) (size offset : Int)

def FileOp.task : FileOp → FsM Unit
  | .create stale path size => do
    let _ ← filesysCreate stale path size false
    pure ()
  | .remove path => do
    let _ ← filesysRemove path
    pure ()
  | .write sector buffer size offset => do
    let _ ← writeSector sector buffer size offset
    pure ()
  | .read sector size offset => do
    let _ ← readSector sector size offset
    pure ()

theorem exec_create_task (stale : List Byte) (path : CString) (size : Int) (s : FileSys) :
    ((FileOp.create stale path size).task.exec s).2 = ((filesysCreate stale path size false).exec s).2 := by
  unfold FileOp.task
  rw [Task.exec_bind,Task.exec_pure]

theorem exec_writeSector_task (sector : Nat) (buffer : List Byte) (size offset : Int) (s : FileSys) :
    ((FileOp.write sector buffer size offset).task.exec s).2 = ((writeSector sector buffer size offset).exec s).2 := by
  unfold FileOp.task
  rw [Task.exec_bind,Task.exec_pure]

/-- The sector is that of an entry in use. -/
def ListedSector (s : Volume) (sector : Nat) : Prop :=
  ∃ i, ListedAt (rootArray s) i ∧ (entryAt (rootArray s) i).inodeSector = sector

/-- The arguments are those of an `offset_t`, a path to remove is one name, and only
listed files are written and read. -/
def FileOp.Allowed (s : Volume) : FileOp → Prop
  | .create _ _ size => -2147483648 ≤ size ∧ size < 2147483648
  | .remove path => SlashFree path
  | .write sector _ size offset => ListedSector s sector ∧ 1 ≤ size ∧ size < 2147483648 ∧ 0 ≤ offset ∧ offset < 2147483648
  | .read sector size offset => ListedSector s sector ∧ 0 ≤ size ∧ 0 ≤ offset

/-- The states of the runs that start in `s`. -/
inductive Reached (s : FileSys) : FileSys → Prop
  | start : Reached s s
  | step {t : FileSys} (op : FileOp) (before : Reached s t) (allowed : op.Allowed (volume t)) :
      Reached s (op.task.exec t).2

/-- What every operation does to the history, and to the inode of the free map file on
the device when no allocation failed. -/
structure Advance (s t : Volume) : Prop where
  same : s.vars.handles.Same t.vars.handles
  size : t.vars.freeMap.bitCnt = s.vars.freeMap.bitCnt
  panics : t.vars.panics = s.vars.panics
  log : ∃ new, t.vars.allocations = s.vars.allocations ++ new ∧
    (∀ x, some x ∈ new → bitmapTest s.vars.freeMap x = false) ∧
    (none ∉ new → t.device freeMapSector = s.device freeMapSector)

section
variable {reserved dirty : Nat → Prop} {s t : Volume} {x : Nat}

theorem Mounted.clean (mounted : Mounted reserved dirty s) : ¬dirty freeMapSector := mounted.ready.clean_origin

theorem Mounted.inside (mounted : Mounted reserved dirty s) (listed : ListedSector s x) :
    Owns (rootArray s) x ∧ x ≠ rootDirSector := by
  obtain ⟨i,listed,rfl⟩ := listed
  exact ⟨owns_listed listed,mounted.apart i listed⟩

theorem Advance.refused {done : Bool} {leaked : Nat} (mounted : Mounted reserved dirty s)
    (same : s.vars.handles.Same t.vars.handles)
    (refused : Refused reserved dirty (Owns (rootArray s)) s t done leaked) : Advance s t := by
  obtain ⟨new,log,outcome,clear⟩ := refused.logged.log
  refine ⟨same,refused.logged.size,refused.logged.panics,new,log,clear,fun whole => ?_⟩
  refine refused.kept.system _ mounted.origin mounted.clean (Or.inl ?_)
  exact Bool.not_eq_false done ▸ fun failed => whole (outcome.mpr failed)

theorem Advance.made {name : CString} {size : Int} (mounted : Mounted reserved dirty s)
    (same : s.vars.handles.Same t.vars.handles)
    (made : Made reserved dirty (Owns (rootArray s)) s t x name size) : Advance s t := by
  obtain ⟨new,log,-,clear⟩ := made.marks.log
  exact ⟨same,made.marks.size,made.marks.panics,new,log,clear,fun _ => made.system _ mounted.origin mounted.clean⟩

theorem Advance.removed {i : Nat} (mounted : Mounted reserved dirty s) (same : s.vars.handles.Same t.vars.handles)
    (removed : Removed reserved dirty (Owns (rootArray s)) s t i x) : Advance s t :=
  ⟨same,removed.size,removed.panics,[],removed.log.trans (List.append_nil _).symm,fun _ member => absurd member List.not_mem_nil,
    fun _ => removed.system _ mounted.origin mounted.clean⟩

theorem Advance.stored {buffer : List Byte} {ofs n : Nat} {done : Bool} (mounted : Mounted reserved dirty s)
    (same : s.vars.handles.Same t.vars.handles)
    (stored : Stored reserved dirty (Owns (rootArray s)) s t x buffer ofs n done) : Advance s t := by
  obtain ⟨new,log,outcome,clear⟩ := stored.marks.log
  refine ⟨same,stored.marks.size,stored.marks.panics,new,log,clear,fun whole => ?_⟩
  refine stored.system _ mounted.origin mounted.clean (Or.inl ?_)
  exact Bool.not_eq_false done ▸ fun failed => whole (outcome.mpr failed)

theorem Advance.rehandle {h : Handles} (same : s.vars.handles.Same h) : Advance s (withHandles s h) :=
  ⟨same,rfl,rfl,[],(List.append_nil _).symm,fun _ member => absurd member List.not_mem_nil,fun _ => rfl⟩

theorem Advance.persisted (advance : Advance s t) (whole : none ∉ t.vars.allocations)
    (persisted : none ∉ s.vars.allocations → Persisted s) : Persisted t := by
  obtain ⟨new,log,-,system⟩ := advance.log
  rw [log,List.mem_append,not_or] at whole
  intro f pointer
  rw [advance.same.freeMapFile] at pointer
  rw [advance.same.file_eq,advance.same.inode_eq,system whole.2]
  exact persisted whole.1 f pointer

theorem Mounted.create (mounted : Mounted reserved dirty s) (stale : List Byte) (path : CString) (size : Int)
    (low : -2147483648 ≤ size) (high : size < 2147483648) :
    ∃ created t, (filesysCreate stale path size false).exec s = (created,t) ∧ Mounted reserved dirty t ∧ Advance s t := by
  have outcome := filesysCreate_spec mounted.layout mounted.ready mounted.origin owns_root mounted.idle.closed stale path
    low high
  obtain ⟨t,same,outcome⟩ := outcome
  cases leak : leakAt s (splitPathFilename path).2 size with
  | some leaked =>
    rw [leak] at outcome
    obtain ⟨run,done,refused⟩ := outcome
    exact ⟨_,t,run,(mounted.refused same refused).1,.refused mounted same refused⟩
  | none =>
    rw [leak] at outcome
    obtain ⟨run,x,made⟩ := outcome
    exact ⟨_,t,run,(mounted.made same made).1,.made mounted same made⟩

theorem Mounted.remove (mounted : Mounted reserved dirty s) (path : CString) (plain : SlashFree path) :
    ∃ found t, (filesysRemove path).exec s = (found,t) ∧ Mounted reserved dirty t ∧ Advance s t := by
  obtain ⟨t,same,outcome⟩ := filesysRemove_spec mounted.layout mounted.ready mounted.origin owns_root mounted.idle.closed
    path plain fun i listed => mounted.listed listed
  have array : contents (s.device rootDirSector) s.device = rootArray s := rfl
  rw [array] at outcome
  cases search : findName (rootArray s) path with
  | none =>
    rw [search] at outcome
    obtain ⟨run,unchanged,ready⟩ := outcome
    have advance : Advance s (withHandles s t.vars.handles) := .rehandle same
    refine ⟨_,t,run,mounted.keep same ?_ ?_ ready ?_,unchanged ▸ advance⟩
    · rw [unchanged]
      rfl
    · rw [unchanged]
      exact mounted.layout.congr rfl rfl
    · rw [unchanged]
      exact fun _ _ => rfl
  | some i =>
    rw [search] at outcome
    obtain ⟨run,removed⟩ := outcome
    exact ⟨_,t,run,(mounted.removed same (findName_listed search).1 removed).1,.removed mounted same removed⟩

theorem Mounted.write (mounted : Mounted reserved dirty s) (buffer : List Byte) (size offset : Int)
    (listed : ListedSector s x) (some : 1 ≤ size) (second : size < 2147483648) (low : 0 ≤ offset)
    (first : offset < 2147483648) :
    ∃ written t, (writeSector x buffer size offset).exec s = (written,t) ∧ Mounted reserved dirty t ∧ Advance s t := by
  obtain ⟨owns,apart⟩ := mounted.inside listed
  obtain ⟨n,rfl⟩ := Int.eq_ofNat_of_zero_le (by omega : 0 ≤ size)
  obtain ⟨ofs,rfl⟩ := Int.eq_ofNat_of_zero_le low
  obtain ⟨done,t,run,same,stored⟩ := writeSector_spec mounted.layout mounted.ready mounted.origin owns mounted.idle.live
    (mounted.idle.unopened (mounted.nonzero owns)) buffer ofs n (by omega) (by omega) (by omega)
  exact ⟨_,t,run,(mounted.stored same apart stored).1,.stored mounted same stored⟩

theorem Mounted.read (mounted : Mounted reserved dirty s) (size offset : Int) (listed : ListedSector s x)
    (natural : 0 ≤ size) (low : 0 ≤ offset) :
    ∃ bytes t, (readSector x size offset).exec s = (bytes,t) ∧ Mounted reserved dirty t ∧ Advance s t := by
  obtain ⟨owns,-⟩ := mounted.inside listed
  obtain ⟨n,rfl⟩ := Int.eq_ofNat_of_zero_le natural
  obtain ⟨ofs,rfl⟩ := Int.eq_ofNat_of_zero_le low
  obtain ⟨h,run,same,ready⟩ := readSector_spec mounted.layout mounted.ready owns mounted.idle.live
    (mounted.idle.unopened (mounted.nonzero owns)) n ofs
  exact ⟨_,_,run,mounted.keep same rfl (mounted.layout.congr rfl rfl) ready fun _ _ => rfl,.rehandle same⟩

/-- The step lemma: an operation keeps the file system mounted. -/
theorem Mounted.step (mounted : Mounted reserved dirty s) (op : FileOp) (allowed : op.Allowed s) :
    ∃ t, op.task.exec s = ((),t) ∧ Mounted reserved dirty t ∧ Advance s t := by
  cases op with
  | create stale path size =>
    obtain ⟨low,high⟩ := allowed
    obtain ⟨created,t,run,after,advance⟩ := mounted.create stale path size low high
    refine ⟨t,?_,after,advance⟩
    unfold FileOp.task
    simp only [Task.exec_bind,Task.exec_pure,run]
  | remove path =>
    obtain ⟨found,t,run,after,advance⟩ := mounted.remove path allowed
    refine ⟨t,?_,after,advance⟩
    unfold FileOp.task
    simp only [Task.exec_bind,Task.exec_pure,run]
  | write sector buffer size offset =>
    obtain ⟨listed,some,second,low,first⟩ := allowed
    obtain ⟨written,t,run,after,advance⟩ := mounted.write buffer size offset listed some second low first
    refine ⟨t,?_,after,advance⟩
    unfold FileOp.task
    simp only [Task.exec_bind,Task.exec_pure,run]
  | read sector size offset =>
    obtain ⟨listed,natural,low⟩ := allowed
    obtain ⟨bytes,t,run,after,advance⟩ := mounted.read size offset listed natural low
    refine ⟨t,?_,after,advance⟩
    unfold FileOp.task
    simp only [Task.exec_bind,Task.exec_pure,run]

end

/-- What holds between the operations of every run. -/
structure Sane (reserved dirty : Nat → Prop) (s : FileSys) : Prop where
  mounted : Mounted reserved dirty (volume s)
  size : s.vars.freeMap.bitCnt = deviceSize s - 1
  persisted : none ∉ s.vars.allocations → Persisted (volume s)
  panics : s.vars.panics = 0

section
variable {reserved dirty : Nat → Prop} {s t : FileSys}

theorem Sane.step (sane : Sane reserved dirty s) (op : FileOp) (allowed : op.Allowed (volume s)) :
    Sane reserved dirty (op.task.exec s).2 ∧ Advance (volume s) (volume (op.task.exec s).2) := by
  obtain ⟨v,run,mounted,advance⟩ := sane.mounted.step op allowed
  rw [exec_volume] at run
  obtain rfl : volume (op.task.exec s).2 = v := congrArg Prod.snd run
  refine ⟨⟨mounted,?_,fun whole => advance.persisted whole sane.persisted,advance.panics.trans sane.panics⟩,advance⟩
  rw [exec_deviceSize]
  exact advance.size.trans sane.size

/-- The run lemma. -/
theorem Sane.reached (sane : Sane reserved dirty s) (run : Reached s t) : Sane reserved dirty t := by
  induction run with
  | start => exact sane
  | step op _ allowed ih => exact (ih.step op allowed).1

end

theorem init_size (c : CacheStore) : c.init.cache.fsDevice.size = c.cache.fsDevice.size := rfl

theorem filesysInit_deviceSize (format : Bool) (s : FileSys) : deviceSize (filesysInit format s) = deviceSize s := by
  unfold filesysInit
  rw [exec_deviceSize]
  unfold deviceSize
  dsimp only
  rw [init_size]
  exact exec_deviceSize (initVars s.device.cache.fsDevice.size) s

theorem formatted_deviceSize (c : CacheStore) : deviceSize (formatted c) = c.cache.fsDevice.size := by
  unfold formatted
  rw [filesysInit_deviceSize]
  unfold deviceSize
  dsimp only

theorem initState_marks {size : Nat} {mem : Nat → Sector} {t : Volume} (some : 2 ≤ size - 1)
    (marks : Marks (initState bootVars size mem) t true) : t.vars.freeMap.bitCnt = size - 1 ∧ t.vars.panics = 0 := by
  have bits := marks.size
  have panics := marks.panics
  simp only [initState] at bits panics
  rw [(firstMap_spec size some).2.1] at bits
  exact ⟨bits,panics⟩

theorem Formatted.sane {reserved dirty : Nat → Prop} {size : Nat} {mem : Nat → Sector} {s : FileSys}
    (made : Formatted reserved dirty (initState bootVars size mem) (volume s)) (some : 2 ≤ size - 1)
    (device : deviceSize s = size) : Sane reserved dirty s := by
  obtain ⟨bits,panics⟩ := initState_marks some made.marks
  refine ⟨made.mounted,?_,fun _ => made.persisted,panics⟩
  rw [device]
  exact bits

/-- The first state of every run. -/
theorem formatted_sane (c : CacheStore) (fits : Formattable c.cache.fsDevice.size) :
    ∃ reserved dirty, Sane reserved dirty (formatted c) := by
  obtain ⟨reserved,dirty,made⟩ := formatted_spec c fits
  obtain ⟨-,-,room⟩ := fits
  exact ⟨reserved,dirty,made.sane (by omega) (formatted_deviceSize c)⟩

theorem Formatted.whole {reserved dirty : Nat → Prop} {size : Nat} {mem : Nat → Sector} {s : FileSys}
    (made : Formatted reserved dirty (initState bootVars size mem) (volume s)) : none ∉ s.vars.allocations := by
  obtain ⟨new,log,outcome,-⟩ := made.marks.log
  have all : s.vars.allocations = [] ++ new := log
  rw [all,List.nil_append,outcome]
  exact Bool.false_ne_true.symm

/-- `do_format` finds every sector that it asks for. -/
theorem formatted_whole (c : CacheStore) (fits : Formattable c.cache.fsDevice.size) :
    none ∉ (formatted c).vars.allocations := by
  obtain ⟨reserved,dirty,made⟩ := formatted_spec c fits
  exact made.whole

theorem freeSlot_newRoot : freeSlot newRoot < 1000 := by
  unfold freeSlot stopAt
  cases found : findEntry newRoot (fun e => !e.inUse) 0 with
  | some i =>
    have inside := (findEntry_some newRoot _ 0 i found).2.1
    rwa [newRoot_count] at inside
  | none =>
    have missed := findEntry_none newRoot _ 0 found 1 (Nat.zero_le 1) (by rw [newRoot_count]; decide)
    refine absurd ⟨Nat.le_refl 1,by rw [newRoot_count]; decide,?_⟩ (newRoot_unlisted 1)
    simpa using missed

theorem newRoot_good (name : CString) (some : strlen name ≠ 0) (fits : strlen name ≤ nameMax) : ¬BadName newRoot name := by
  unfold BadName
  rw [not_or,not_or,Option.not_isSome_iff_eq_none]
  refine ⟨some,Nat.not_lt.mpr fits,?_⟩
  cases found : findName newRoot name with
  | none => rfl
  | some i => exact absurd (findName_listed found).1 (newRoot_unlisted i)

theorem initState_count {size : Nat} {mem : Nat → Sector} (some : 2 ≤ size - 1) :
    (initState bootVars size mem).vars.freeMap.bitCnt = size - 1 ∧
      (initState bootVars size mem).vars.freeMap.clearCount + 2 = size - 1 := by
  obtain ⟨-,bits,-,-,count⟩ := firstMap_spec size some
  simp only [initState]
  exact ⟨bits,count⟩

theorem rootGrowth_new {mem : Nat → Sector} (array : contents (mem rootDirSector) mem = newRoot) :
    36 * freeSlot (contents (mem rootDirSector) mem) + 36 ≤ 8517120 ∧ rootGrowth mem = 0 := by
  have slot : freeSlot (contents (mem rootDirSector) mem) < 1000 := by
    rw [array]
    exact freeSlot_newRoot
  have length : (contents (mem rootDirSector) mem).length = 36000 := by rw [array,newRoot_length]
  clear array
  rw [length_contents] at length
  refine ⟨by omega,?_⟩
  unfold rootGrowth need
  rw [if_pos (by omega)]

theorem Formatted.clear {reserved dirty : Nat → Prop} {device : Nat} {mem : Nat → Sector} {s : Volume}
    (made : Formatted reserved dirty (initState bootVars device mem) s) (some : 2 ≤ device - 1) :
    s.vars.freeMap.clearCount + (2 + blocksFor (byteCnt (device - 1)) + blocksFor 36000) = device - 1 := by
  obtain ⟨bits,count⟩ := @initState_count device mem some
  have clear := made.count
  rw [bits] at clear
  omega

/-- A file that fits is created on a new file system. -/
theorem Formatted.leak {reserved dirty : Nat → Prop} {device : Nat} {mem : Nat → Sector} {s : Volume}
    (made : Formatted reserved dirty (initState bootVars device mem) s) (name : CString) (some : strlen name ≠ 0)
    (fits : strlen name ≤ nameMax) (size : Int) (natural : 0 ≤ size) (small : size ≤ 8517120)
    (room : 2 + blocksFor (byteCnt (device - 1)) + blocksFor 36000 + (1 + blocksFor size) ≤ device - 1) :
    leakAt s name size = none := by
  have clear := made.clear (by omega)
  have array : contents (s.device rootDirSector) s.device = newRoot := made.array
  obtain ⟨slot,growth⟩ := rootGrowth_new array
  have good : ¬BadName (contents (s.device rootDirSector) s.device) name := by
    rw [array]
    exact newRoot_good name some fits
  unfold leakAt
  rw [growth]
  exact createLeak_none size (by omega) natural small good (by omega) slot

/-- A device of 1000 sectors of zeros, and a cache with nothing in it. -/
def blankStore : CacheStore where
  cache := bufferCacheInit {
    cache := fun _ => ⟨false,0,.zeros,false,false⟩
    clock := 0
    fsDevice := ⟨1000,fun _ => .zeros⟩}
  coherent := BufferCache.init_coherent _

theorem blankStore_formattable : Formattable blankStore.cache.fsDevice.size := by decide +kernel

def nameA : CString := ⟨[97],by decide⟩

theorem blankStore_room : 2 + blocksFor (byteCnt (blankStore.cache.fsDevice.size - 1)) + blocksFor 36000 +
    (2 + blocksFor 5000) ≤ blankStore.cache.fsDevice.size - 1 := by decide +kernel

theorem formatted_blankStore_clear : 2 + blocksFor 5000 ≤ (volume (formatted blankStore)).vars.freeMap.clearCount ∧
    rootGrowth (volume (formatted blankStore)).device = 0 := by
  obtain ⟨reserved,dirty,made⟩ := formatted_spec blankStore blankStore_formattable
  have clear := made.clear (by decide)
  have room := blankStore_room
  exact ⟨by omega,(rootGrowth_new made.array).2⟩

theorem formatted_blankStore_leak : leakAt (volume (formatted blankStore)) nameA 5000 = none := by
  obtain ⟨reserved,dirty,made⟩ := formatted_spec blankStore blankStore_formattable
  have room := blankStore_room
  exact made.leak nameA (by decide) (by decide) 5000 (by decide) (by decide) (by omega)

end MyShell.FS
