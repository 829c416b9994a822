import MyShell.FS.NewDirectory

/-! Formatting a device and mounting it: `filesys_init` with its stages. -/
namespace MyShell.FS
open BlockProgram PointerForest Bitmap

/-- The sectors of the free map file: its inode and every block its map reaches. -/
def mapNodes (d : Sector) (mem : Nat → Sector) (x : Nat) : Prop :=
  x = freeMapSector ∨ ∃ pointer path, Key blocks height isPointer pointer path ∧
    node blocks mem (d.word pointer) path ≠ 0 ∧ node blocks mem (d.word pointer) path = x

/-- Those that hold the bytes of the bitmap. -/
def mapData (d : Sector) (mem : Nat → Sector) (n x : Nat) : Prop := ∃ k, 512*k < n ∧ dataSector d mem k = x

/-- The free map file, just opened. -/
def Handles.openMap (h : Handles) (data : Sector) : Handles :=
  {h.openInode freeMapSector data with
    files := h.files.alloc {inode := h.inodes.next, pos := 0, denyWrite := false}
    freeMapFile := some h.files.next}

/-- The same closed, with the pointer left behind. -/
def Handles.closeMap (h : Handles) (file : Nat) : Handles :=
  {h.closeInode (h.file file).inode with files := h.files.free file}

section
variable {reserved dirty : Nat → Prop} {s t : Volume} {d : Sector} {h : Handles} {file : Nat}

theorem openMap_file (h : Handles) (d : Sector) : (h.openMap d).file h.files.next = ⟨h.inodes.next,0,false⟩ :=
  ObjectHeap.deref_of_cell _ _ _ (ObjectHeap.alloc_cell_next _ _)

theorem openMap_inode (h : Handles) (d : Sector) : (h.openMap d).inode h.inodes.next = readInode freeMapSector d :=
  ObjectHeap.deref_of_cell _ _ _ (ObjectHeap.alloc_cell_next _ _)

/-- A file of the size of the bitmap takes the bits. -/
theorem bitmapWrite_spec (reserved : Nat → Prop) (s : Volume) (file : Nat) (d : Sector)
    (data : (s.vars.handles.inode (s.vars.handles.file file).inode).data = d)
    (writable : (s.vars.handles.inode (s.vars.handles.file file).inode).denyWriteCnt = 0)
    (packed : s.vars.freeMap.Packed) (positive : 0 < s.vars.freeMap.bitCnt) (small : s.vars.freeMap.bitCnt ≤ noSector)
    (total : d.length = byteCnt s.vars.freeMap.bitCnt) (limit : byteCnt s.vars.freeMap.bitCnt ≤ 8517120)
    (sound : SoundMap reserved (arena s) d) (present : Present d s.device (byteCnt s.vars.freeMap.bitCnt)) :
    ∃ mem, (bitmapWrite inodeWriteAt file).exec s = (true,⟨s.vars,mem⟩) ∧
      Written d s.device mem (bitmapBytes s.vars.freeMap) 0 0 (byteCnt s.vars.freeMap.bitCnt) ∧
      fileBytes d mem 0 (byteCnt s.vars.freeMap.bitCnt) = bitmapBytes s.vars.freeMap := by
  have some : 0 < byteCnt s.vars.freeMap.bitCnt := by
    unfold byteCnt elemCnt
    omega
  obtain ⟨inner,-,steps⟩ := inodeWriteAt_step s
  obtain ⟨mem,run,written⟩ := writeAtStep_inside inner s reserved (s.vars.handles.file file).inode d
    (bitmapBytes s.vars.freeMap) (byteCnt s.vars.freeMap.bitCnt) 0 (byteCnt s.vars.freeMap.bitCnt) packed small data
    writable total limit sound present some (by omega)
  have start := (steps (s.vars.handles.file file).inode (bitmapBytes s.vars.freeMap) (byteCnt s.vars.freeMap.bitCnt : Nat)
    ((0 : Nat) : Int)).trans run
  refine ⟨mem,?_,written,?_⟩
  · unfold bitmapWrite fileWriteAt
    simp only [Task.exec_bind,Task.exec_get,exec_getHandles]
    rw [show (0 : Int) = ((0 : Nat) : Int) from rfl,start,Task.exec_pure,beq_self_eq_true]
  · apply List.ext_getElem
    · simp
    · intro i left right
      have inside : i < byteCnt s.vars.freeMap.bitCnt := by simpa using left
      have sector := written.dataSector_eq sound (by omega) (by rw [Nat.zero_add]; exact present) (i / 512) (by omega)
      have byte := written.bytes i (by omega) (present (i / 512) (by omega))
      rw [if_pos (by omega),Nat.zero_add,Nat.sub_zero] at byte
      simp only [fileBytes,fileByte,List.getElem_map,List.getElem_range,Nat.zero_add]
      rw [sector,byte,List.getD_eq_getElem?_getD,List.getElem?_eq_getElem right]
      rfl

/-- The variables when `do_format` starts, on a device with room for the free map file. -/
structure Blank (s : Volume) : Prop where
  unmapped : s.vars.handles.freeMapFile = none
  idle : s.vars.handles.openInodes = []
  unset : s.vars.handles.cwd = none
  packed : s.vars.freeMap.Packed
  positive : 0 < s.vars.freeMap.bitCnt
  small : s.vars.freeMap.bitCnt ≤ noSector
  origin : bitmapTest s.vars.freeMap freeMapSector = true
  root : bitmapTest s.vars.freeMap rootDirSector = true
  limit : byteCnt s.vars.freeMap.bitCnt ≤ 8517120
  room : blocksFor (byteCnt s.vars.freeMap.bitCnt) ≤ s.vars.freeMap.clearCount

/-- Before the file is open, `free_map_allocate` writes nothing. -/
def bootSectors (x : Nat) : Prop := x = freeMapSector ∨ x = rootDirSector

theorem Blank.ready (blank : Blank s) : Ready bootSectors (fun _ => False) s where
  packed := blank.packed
  positive := blank.positive
  small := blank.small
  origin := blank.origin
  held x boot := boot.elim (fun same => same ▸ blank.origin) fun same => same ▸ blank.root
  within _ stained := stained.elim
  closed _ _ stained := stained
  opened file pointer := by
    rw [blank.unmapped] at pointer
    contradiction

/-- The inode of the free map file, with all its blocks. -/
structure MapInode (s t : Volume) (d : Sector) : Prop where
  handles : t.vars.handles = s.vars.handles
  inode : t.device freeMapSector = d
  total : d.length = byteCnt s.vars.freeMap.bitCnt
  sound : SoundMap bootSectors (arena t) d
  present : Present d t.device (byteCnt s.vars.freeMap.bitCnt)
  marks : Marks s t true
  packed : t.vars.freeMap.Packed
  count : t.vars.freeMap.clearCount + blocksFor (byteCnt s.vars.freeMap.bitCnt) = s.vars.freeMap.clearCount

theorem mapInode_spec (blank : Blank s) :
    ∃ t d, (inodeCreate freeMapSector (byteCnt s.vars.freeMap.bitCnt) false).exec s = (true,t) ∧ MapInode s t d := by
  have limit := blank.limit
  have room := blank.room
  generalize size : byteCnt s.vars.freeMap.bitCnt = n at limit room
  have ready := blank.ready
  have empty := newInodeDisk_sound (n : Int) false bootSectors (arena s)
  obtain ⟨done,run,result⟩ := inodeReserve_spec isWrite_inodeWriteAt ready.within s (newInodeDisk n false) n ready
    (fun _ boot => boot) ready.held empty (by omega)
  have wanted := missing_newInodeDisk (n : Int) false s.device
  have fits : decide (bytesToSectors n ≤ 16635) = true := by
    rw [decide_eq_true_eq,bytesToSectors_le _ (by omega) (by omega)]
    omega
  have step := exec_inodeCreate (n : Int) false freeMapSector s (by omega) (by omega)
  rw [step]
  generalize (inodeReserve inodeWriteAt (newInodeDisk n false) n).exec s = outcome at run result
  obtain ⟨⟨found,d⟩,t⟩ := outcome
  simp only at run result ⊢
  have allocated := run.allocated
  rw [wanted] at allocated
  have complete : done = true := by
    cases done with
    | true => rfl
    | false => exact absurd (allocated.short rfl).2 (Nat.not_lt.mpr room)
  subst complete
  rw [fits,Bool.and_true] at result
  subst result
  have sound := empty.grow run.grow ready.held
  have inner : SoundMap bootSectors (arena ⟨t.vars,Function.update t.device freeMapSector d⟩) d :=
    sound.rewrite _ fun x _ other _ _ => Function.update_of_ne (fun same => other (Or.inl same)) _ _
  refine ⟨_,d,rfl,allocated.handles,Function.update_self freeMapSector d t.device,?_,inner,fun k near => ?_,allocated.toMarks.congr rfl rfl rfl,
    run.ready.packed,?_⟩
  · have total := length_newInodeDisk (n : Int) false (by omega) (by omega)
    have kept := run.words 126 (by decide) fun k member same => by
      have low : k.1 < 125 := (inodeReach_key _ k member).dom
      omega
    unfold Sector.length at total ⊢
    rw [kept,total,size]
  · rw [size] at near
    have same := SoundMap.dataSector_eq sound (Function.update t.device freeMapSector d)
      (fun x _ other _ _ => Function.update_of_ne (fun same => other (Or.inl same)) _ _) k (by omega)
    rw [same]
    refine run.cover rfl (dataPath k) (inodeReach_data _ k ?_ (by omega))
    rw [bytesToSectors_nat _ (by omega)]
    omega
  · rw [size]
    exact allocated.count rfl

/-- The steps that open the free map file. -/
theorem exec_openMap (s : Volume) (absent : s.vars.handles.Unopened freeMapSector) (inode : s.device freeMapSector = d) :
    (inodeOpen freeMapSector).exec s =
        (s.vars.handles.inodes.next,withHandles s (s.vars.handles.openInode freeMapSector d)) ∧
      (fileOpen (some s.vars.handles.inodes.next)).exec (withHandles s (s.vars.handles.openInode freeMapSector d)) =
        (some s.vars.handles.files.next,withHandles s {s.vars.handles.openMap d with freeMapFile := s.vars.handles.freeMapFile}) ∧
      (setFreeMapFile (some s.vars.handles.files.next)).exec
          (withHandles s {s.vars.handles.openMap d with freeMapFile := s.vars.handles.freeMapFile}) =
        ((),withHandles s (s.vars.handles.openMap d)) := by
  have opening := exec_inodeOpen_new s freeMapSector absent
  rw [inode] at opening
  refine ⟨opening,?_,rfl⟩
  unfold fileOpen
  simp only [Task.exec_bind,exec_getHandles,exec_setHandles,Task.exec_pure]
  rfl

/-- The free map file is on the device, open and in step with the bitmap. -/
structure MapMade (s t : Volume) (d : Sector) : Prop where
  handles : t.vars.handles = s.vars.handles.openMap d
  inode : t.device freeMapSector = d
  opened : FreeMapOpen (mapNodes d t.device) (mapData d t.device (byteCnt t.vars.freeMap.bitCnt)) t
    s.vars.handles.files.next d
  ready : Ready (mapNodes d t.device) (mapData d t.device (byteCnt t.vars.freeMap.bitCnt)) t
  apart : ¬mapNodes d t.device rootDirSector
  marks : Marks s t true
  count : t.vars.freeMap.clearCount + blocksFor (byteCnt s.vars.freeMap.bitCnt) = s.vars.freeMap.clearCount

theorem freeMapCreate_spec (blank : Blank s) : ∃ t d, freeMapCreate.exec s = ((),t) ∧ MapMade s t d ∧
    ∃ u, (inodeCreate freeMapSector (byteCnt s.vars.freeMap.bitCnt) false).exec s = (true,u) ∧
      t.vars.freeMap = u.vars.freeMap := by
  obtain ⟨u,d,create,made⟩ := mapInode_spec blank
  have idle : u.vars.handles.Unopened freeMapSector := by
    intro p member
    rw [made.handles,blank.idle] at member
    contradiction
  obtain ⟨first,second,third⟩ := exec_openMap u idle made.inode
  generalize state : withHandles u (u.vars.handles.openMap d) = v at third
  have bitmap : v.vars.freeMap = u.vars.freeMap := state ▸ rfl
  have device : v.device = u.device := state ▸ rfl
  have handles : v.vars.handles = u.vars.handles.openMap d := state ▸ rfl
  have size : v.vars.freeMap.bitCnt = s.vars.freeMap.bitCnt := by rw [bitmap,made.marks.size]
  have file : (v.vars.handles.inode (v.vars.handles.file u.vars.handles.files.next).inode) = readInode freeMapSector d := by
    rw [handles,openMap_file,openMap_inode]
  have sound : SoundMap bootSectors (arena v) d := by
    have same : arena v = arena u := by
      unfold arena
      rw [bitmap,device]
    rw [same]
    exact made.sound
  have present : Present d v.device (byteCnt v.vars.freeMap.bitCnt) := by
    rw [device,size]
    exact made.present
  have limit : byteCnt v.vars.freeMap.bitCnt ≤ 8517120 := size ▸ blank.limit
  have total : d.length = byteCnt v.vars.freeMap.bitCnt := size ▸ made.total
  have packed : v.vars.freeMap.Packed := bitmap ▸ made.packed
  obtain ⟨mem,write,written,synced⟩ := bitmapWrite_spec bootSectors v u.vars.handles.files.next d (by rw [file]; rfl)
    (by rw [file]; rfl) packed (size ▸ blank.positive) (size ▸ blank.small) total limit sound present
  have reach : 0 + byteCnt v.vars.freeMap.bitCnt ≤ 8517120 := by omega
  have whole : Present d v.device (0 + byteCnt v.vars.freeMap.bitCnt) := by
    rw [Nat.zero_add]
    exact present
  have sound' := written.sound sound reach whole
  have sectors (k : Nat) (inside : k < 16635) := written.dataSector_eq sound reach whole k inside
  have frame (x : Nat) (boot : bootSectors x) : mem x = v.device x := by
    refine written.frame x fun k _ near same => ?_
    have key := dataPath_key k (by omega)
    refine sound.apart _ _ key.1 (present k (by omega)) ?_
    change bootSectors (dataSector d v.device k)
    rw [same]
    exact boot
  have marks : Marks s ⟨v.vars,mem⟩ true := made.marks.congr bitmap (state ▸ rfl) (state ▸ rfl)
  have origin : bitmapTest v.vars.freeMap freeMapSector = true := marks.mono _ blank.origin
  have opened : FreeMapOpen (mapNodes d mem) (mapData d mem (byteCnt v.vars.freeMap.bitCnt)) ⟨v.vars,mem⟩
      u.vars.handles.files.next d := by
    refine ⟨congrArg Inode.data file,congrArg Inode.denyWriteCnt file,total,limit,?_,fun k near => ?_,?_,?_,synced⟩
    · exact ⟨sound'.marked,fun _ _ _ _ => not_false,sound'.single⟩
    · change 512*k < byteCnt v.vars.freeMap.bitCnt at near
      rw [sectors k (by omega)]
      exact present k near
    · exact fun pointer path key present => Or.inr ⟨pointer,path,key,present,rfl⟩
    · exact fun x => Iff.rfl
  have held (x : Nat) (owned : mapNodes d mem x) : bitmapTest v.vars.freeMap x = true := by
    rcases owned with rfl | ⟨pointer,path,key,present,rfl⟩
    · exact origin
    · exact sound'.marked pointer path key present
  have next : s.vars.handles.files.next = u.vars.handles.files.next := by rw [made.handles]
  refine ⟨⟨v.vars,mem⟩,d,?_,⟨handles.trans (by rw [made.handles]),(frame _ (Or.inl rfl)).trans (device ▸ made.inode),
    next ▸ opened,⟨packed,size ▸ blank.positive,size ▸ blank.small,origin,held,?_,?_,?_⟩,?_,marks,?_⟩,u,create,bitmap⟩
  · unfold freeMapCreate
    simp only [Task.exec_bind,Task.exec_get,create,panicUnless,if_true,Task.exec_pure,first,second,third,write]
  · rintro x ⟨k,near,rfl⟩
    have below : byteCnt v.vars.freeMap.bitCnt ≤ 8517120 := limit
    change 512*k < byteCnt v.vars.freeMap.bitCnt at near
    have key := dataPath_key k (by omega)
    refine Or.inr ⟨_,_,key.1,?_,rfl⟩
    change dataSector d mem k ≠ 0
    rw [sectors k (by omega)]
    exact present k near
  · intro unmapped
    rw [handles] at unmapped
    exact absurd unmapped (Option.some_ne_none _)
  · intro f pointer
    rw [handles] at pointer
    obtain rfl : u.vars.handles.files.next = f := Option.some.inj pointer
    exact ⟨d,opened⟩
  · rintro (zero | ⟨pointer,path,key,present,same⟩)
    · exact absurd zero (by decide)
    · exact sound'.apart pointer path key present (Or.inr same)
  · dsimp only
    rw [bitmap]
    exact made.count

/-- No files at all. -/
theorem Layout.empty (reserved : Nat → Prop) (s : Volume) : Layout reserved (fun _ => False) s.device s where
  forest := ⟨fun _ _ key => key.dom.1.elim,fun _ _ key => key.dom.1.elim,fun _ _ _ _ key => key.dom.1.elim⟩
  marked _ inside := inside.elim
  free _ inside := inside.elim
  natural _ inside := inside.elim
  limit _ inside := inside.elim
  complete _ inside := inside.elim
  slack _ inside := inside.elim

/-- The first entry of the root directory. -/
def selfEntry : DirEntry := {inodeSector := rootDirSector, name := List.replicate 31 0, inUse := true}

/-- The root directory as `do_format` leaves it. -/
def newRoot : List Byte := arrayWrite (List.replicate 36000 0) selfEntry.bytes 0 36

structure RootMade (reserved dirty : Nat → Prop) (s t : Volume) : Prop where
  same : s.vars.handles.Same t.vars.handles
  layout : Layout reserved (fun z => z = rootDirSector) t.device t
  ready : Ready reserved dirty t
  system : ∀ y, reserved y → ¬dirty y → t.device y = s.device y
  array : rootArray t = newRoot
  marks : Marks s t true
  count : t.vars.freeMap.clearCount + blocksFor 36000 = s.vars.freeMap.clearCount

theorem dirCreate_spec (ready : Ready reserved dirty s) (origin : reserved 0) (apart : ¬reserved rootDirSector)
    (marked : bitmapTest s.vars.freeMap rootDirSector = true) (unset : s.vars.handles.cwd = none)
    (closed : s.vars.handles.Unopened rootDirSector) (live : Live s.vars.handles)
    (room : blocksFor 36000 ≤ s.vars.freeMap.clearCount) :
    ∃ t, (dirCreate rootDirSector maxFilesInDirectory).exec s = (true,t) ∧ RootMade reserved dirty s t ∧
      ∃ u, (inodeCreate rootDirSector 36000 true).exec s = (true,u) ∧ Marks u t true ∧
        t.vars.freeMap.clearCount = u.vars.freeMap.clearCount := by
  have size : i32 (((maxFilesInDirectory : Nat) : Int) * ((sizeofDirEntry : Nat) : Int)) = 36000 := by decide
  obtain ⟨done,t,run,made,enough,inode⟩ := dirCreate_made (Layout.empty reserved s) ready origin (x := rootDirSector)
    ⟨apart,not_false,fun _ _ _ inside => inside.elim⟩ marked closed live maxFilesInDirectory
  rw [size] at made enough inode
  obtain rfl := enough (by decide) (by decide) room
  have made := made rfl
  have same : ({s.vars.handles with cwd := none} : Handles) = s.vars.handles := by rw [← unset]
  refine ⟨t,run,⟨same ▸ made.same,?_,made.ready,made.system,made.array,made.marks,made.count (by decide)⟩,
    inode rfl (by decide)⟩
  exact made.layout.congr_owner fun z => (or_iff_right not_false).symm

theorem exec_freeMapClose {p : Nat} {pos : Int} {i : Inode} (pointer : s.vars.handles.freeMapFile = some file)
    (there : s.vars.handles.file file = ⟨p,pos,false⟩) (cell : s.vars.handles.inodes.cell p = some i) (last : i.openCnt = 1)
    (kept : i.removed = false) :
    freeMapClose.exec s = ((),withHandles s (s.vars.handles.closeMap file)) := by
  have inode : (s.vars.handles.file file).inode = p := congrArg File.inode there
  have closing := exec_inodeClose_last s cell last kept
  unfold freeMapClose fileClose fileAllowWrite
  simp only [Task.exec_bind,exec_getHandles,pointer,there,Bool.false_eq_true,if_false,Task.exec_pure,closing,
    Task.exec_modify]
  unfold Handles.closeMap
  rw [inode]
  rfl

/-- The free map file through another handle. -/
theorem FreeMapOpen.reopen {f : Nat} (opened : FreeMapOpen reserved dirty s file d) (device : t.device = s.device)
    (freeMap : t.vars.freeMap = s.vars.freeMap) (data : (t.vars.handles.inode (t.vars.handles.file f).inode).data = d)
    (writable : (t.vars.handles.inode (t.vars.handles.file f).inode).denyWriteCnt = 0) :
    FreeMapOpen reserved dirty t f d := by
  have same : arena t = arena s := by
    unfold arena
    rw [device,freeMap]
  refine ⟨data,writable,?_,?_,same ▸ opened.sound,?_,?_,fun x => ?_,?_⟩
  · rw [freeMap]
    exact opened.total
  · rw [freeMap]
    exact opened.limit
  · rw [freeMap,device]
    exact opened.present
  · rw [device]
    exact opened.nodes
  · rw [freeMap,device]
    exact opened.dirty x
  · rw [freeMap,device]
    exact opened.synced

/-- Opening the free map file reads the bitmap back, whatever the bitmap in memory was. -/
theorem freeMapOpen_spec (opened : FreeMapOpen reserved dirty s file d) (packed : s.vars.freeMap.Packed)
    (positive : 0 < s.vars.freeMap.bitCnt) (device : t.device = s.device) (inode : t.device freeMapSector = d)
    (size : t.vars.freeMap.bitCnt = s.vars.freeMap.bitCnt) (absent : t.vars.handles.Unopened freeMapSector) :
    freeMapOpen.exec t =
        ((),⟨{t.vars with freeMap := s.vars.freeMap, handles := t.vars.handles.openMap d},t.device⟩) ∧
      FreeMapOpen reserved dirty ⟨{t.vars with freeMap := s.vars.freeMap, handles := t.vars.handles.openMap d},t.device⟩
        t.vars.handles.files.next d := by
  obtain ⟨first,second,third⟩ := exec_openMap t absent inode
  have total := opened.total
  have limit := opened.limit
  have reading := readLoop_spec d (byteCnt s.vars.freeMap.bitCnt) (withHandles t (t.vars.handles.openMap d)) total limit
    (by rw [withHandles_device,device]; exact opened.present) (byteCnt s.vars.freeMap.bitCnt)
    (byteCnt s.vars.freeMap.bitCnt) 0 [] (Nat.le_refl _)
  rw [withHandles_device,device,Nat.sub_zero,Nat.min_self,List.nil_append,opened.synced] at reading
  have file : (t.vars.handles.openMap d).file t.vars.handles.files.next = _ := openMap_file _ _
  have data : (t.vars.handles.openMap d).inode t.vars.handles.inodes.next = _ := openMap_inode _ _
  have loaded := load_bytes t.vars.freeMap s.vars.freeMap packed size positive
  constructor
  · have length : ((bitmapBytes s.vars.freeMap).length == byteCnt s.vars.freeMap.bitCnt) = true := by
      rw [length_bytes,beq_self_eq_true]
    have read : (bitmapRead t.vars.handles.files.next).exec (withHandles t (t.vars.handles.openMap d)) =
        (true,⟨{t.vars with freeMap := s.vars.freeMap, handles := t.vars.handles.openMap d},t.device⟩) := by
      unfold bitmapRead fileReadAt inodeReadAt
      simp only [Task.exec_bind,Task.exec_get,exec_getHandles]
      have vars : (withHandles t (t.vars.handles.openMap d)).vars.handles = t.vars.handles.openMap d := rfl
      have bits : (withHandles t (t.vars.handles.openMap d)).vars.freeMap = t.vars.freeMap := rfl
      rw [vars,file]
      dsimp only
      rw [data,bits,size,Int.toNat_natCast]
      have zero : ((0 : Nat) : Int) = 0 := rfl
      have image : (readInode freeMapSector d).data = d := rfl
      rw [zero] at reading
      rw [image,reading,length,Bool.true_or,Task.exec_modify,Task.exec_pure,bits,loaded]
      rfl
    unfold freeMapOpen
    simp only [Task.exec_bind,first,second,third,read,panicUnless,if_true,Task.exec_pure]
  · refine opened.reopen device rfl ?_ ?_
    · rw [file,data]
      rfl
    · rw [file,data]
      rfl

theorem newRoot_length : newRoot.length = 36000 := by
  unfold newRoot
  rw [length_arrayWrite,List.length_replicate]
  exact Nat.max_eq_left (by decide)

theorem entryCount_of_length (a : List Byte) (n : Nat) (length : a.length = 36 * n) : entryCount a = n := by
  unfold entryCount
  omega

theorem newRoot_count : entryCount newRoot = 1000 := entryCount_of_length newRoot 1000 newRoot_length

theorem newRoot_unlisted (i : Nat) : ¬ListedAt newRoot i := new_unlisted 36000 (by decide) i

theorem newRoot_root : RootArray newRoot where
  whole := by rw [newRoot_length,newRoot_count]
  self := new_count 36000
  used := (congrArg DirEntry.inUse (entryAt_new (x := rootDirSector) 36000 (by decide) 0 (new_count 36000))).trans rfl
  distinct i _ listed := absurd listed (newRoot_unlisted i)

theorem newRoot_owns (x : Nat) : Owns newRoot x ↔ x = rootDirSector :=
  or_iff_left fun ⟨i,listed,_⟩ => newRoot_unlisted i listed

/-- What `filesys_init` leaves behind on a new device. -/
structure Formatted (reserved dirty : Nat → Prop) (s t : Volume) : Prop where
  mounted : Mounted reserved dirty t
  array : rootArray t = newRoot
  persisted : ∀ f, t.vars.handles.freeMapFile = some f →
    (t.vars.handles.inode (t.vars.handles.file f).inode).data = t.device freeMapSector
  marks : Marks s t true
  count : t.vars.freeMap.clearCount + blocksFor (byteCnt s.vars.freeMap.bitCnt) + blocksFor 36000 =
    s.vars.freeMap.clearCount
  front : ∀ m, FreeFrom s.vars.freeMap m → ∃ k, FreeFrom t.vars.freeMap k

theorem openMap_mapped (idle : h.openInodes = []) (d : Sector) :
    MapOpen (h.openMap d) h.files.next h.inodes.next (readInode freeMapSector d) :=
  ⟨rfl,openMap_file h d,ObjectHeap.alloc_cell_next _ _,rfl,rfl,congrArg (h.inodes.next :: ·) idle,rfl,
    ObjectHeap.alloc_cell_next _ _⟩

theorem openMap_only (idle : h.openInodes = []) (d : Sector) (p : Nat) (member : p ∈ (h.openMap d).openInodes) :
    ((h.openMap d).inode p).sector = freeMapSector := by
  have single : (h.openMap d).openInodes = [h.inodes.next] := congrArg (h.inodes.next :: ·) idle
  rw [single,List.mem_singleton] at member
  rw [member,openMap_inode]
  rfl

/-- The file system with the free map file opened anew. -/
theorem Ready.reopen {u : Volume} {f : Nat} (ready : Ready reserved dirty s) (opened : FreeMapOpen reserved dirty u f d)
    (freeMap : u.vars.freeMap = s.vars.freeMap) (pointer : u.vars.handles.freeMapFile = some f) :
    Ready reserved dirty u := by
  refine ⟨freeMap ▸ ready.packed,freeMap ▸ ready.positive,freeMap ▸ ready.small,freeMap ▸ ready.origin,freeMap ▸ ready.held,
    ready.within,fun unmapped => ?_,fun g other => ?_⟩
  · rw [pointer] at unmapped
    exact absurd unmapped (Option.some_ne_none _)
  · obtain rfl : f = g := Option.some.inj (pointer.symm.trans other)
    exact ⟨d,opened⟩

theorem initFiles_spec (blank : Blank s)
    (room : blocksFor (byteCnt s.vars.freeMap.bitCnt) + blocksFor 36000 ≤ s.vars.freeMap.clearCount) :
    ∃ reserved dirty t, (initFiles true).exec s = ((),t) ∧ Formatted reserved dirty s t := by
  obtain ⟨u,d,create,made,mapInode,mapRun,mapBits⟩ := freeMapCreate_spec blank
  have origin : mapNodes d u.device freeMapSector := Or.inl rfl
  have count := made.count
  obtain ⟨pointer,there,cell,-⟩ := made.handles ▸ openMap_mapped blank.idle d
  have absent : u.vars.handles.Unopened rootDirSector := by
    intro p member
    rw [made.handles] at member ⊢
    rw [openMap_only blank.idle d p member]
    decide
  have live : Live u.vars.handles := by
    intro f other
    obtain rfl : s.vars.handles.files.next = f := Option.some.inj (pointer.symm.trans other)
    exact ⟨_,by rw [there]; exact cell⟩
  have out : u.vars.handles.cwd = none := by
    rw [made.handles]
    exact blank.unset
  have single : u.vars.handles.openInodes = [s.vars.handles.inodes.next] := by
    rw [made.handles]
    exact congrArg (s.vars.handles.inodes.next :: ·) blank.idle
  obtain ⟨v,directory,rooted,rootInode,rootRun,rootMarks,rootCount⟩ := dirCreate_spec made.ready origin made.apart (made.marks.mono _ blank.root) out absent
    live (by omega)
  have closing := exec_freeMapClose (rooted.same.freeMapFile.trans pointer) ((rooted.same.file_eq _).trans there)
    ((congrFun rooted.same.inodes _).trans cell) rfl rfl
  have opened : FreeMapOpen (mapNodes d u.device) (mapData d u.device (byteCnt u.vars.freeMap.bitCnt)) v
      s.vars.handles.files.next d := by
    obtain ⟨e,opened⟩ := rooted.ready.opened _ (rooted.same.freeMapFile.trans pointer)
    have data := opened.data
    rw [rooted.same.file_eq,rooted.same.inode_eq] at data
    obtain rfl : d = e := made.opened.data.symm.trans data
    exact opened
  have inode : v.device freeMapSector = d :=
    (rooted.system _ origin made.ready.clean_origin).trans made.inode
  generalize handles : v.vars.handles.closeMap s.vars.handles.files.next = h at closing
  have closed : h.openInodes = [] := by
    rw [← handles]
    change v.vars.handles.openInodes.erase (v.vars.handles.file s.vars.handles.files.next).inode = []
    rw [rooted.same.openInodes,rooted.same.file_eq,there,single]
    exact List.erase_cons_head _ _
  have unset : h.cwd = none := by
    rw [← handles]
    exact rooted.same.cwd.trans out
  obtain ⟨reading,reopened⟩ := freeMapOpen_spec (t := withHandles v h) opened rooted.ready.packed rooted.ready.positive rfl
    inode rfl (fun p member => by
      change p ∈ h.openInodes at member
      rw [closed] at member
      exact absurd member List.not_mem_nil)
  generalize final : withHandles ⟨{(withHandles v h).vars with freeMap := v.vars.freeMap, handles := h.openMap d},v.device⟩
    {h.openMap d with fileTable := []} = t
  have bits : t.vars.freeMap = v.vars.freeMap := final ▸ rfl
  have device : t.device = v.device := final ▸ rfl
  have after : t.vars.handles = {h.openMap d with fileTable := []} := final ▸ rfl
  have again : FreeMapOpen (mapNodes d u.device) (mapData d u.device (byteCnt u.vars.freeMap.bitCnt)) t h.files.next d := by
    refine opened.reopen device bits ?_ ?_
    · rw [after]
      exact reopened.data
    · rw [after]
      exact reopened.writable
  have array : rootArray t = newRoot := by
    unfold rootArray
    rw [device]
    exact rooted.array
  have ready := rooted.ready.reopen again bits (by rw [after]; rfl)
  have mapped := openMap_mapped closed d
  refine ⟨_,_,t,?_,⟨⟨?_,ready,origin,?_,array.symm ▸ newRoot_root,?_,?_⟩,array,?_,?_,?_,fun m front => ?_⟩⟩
  · unfold initFiles doFormat initFileTable
    simp only [Task.exec_bind,create,directory,panicUnless,if_true,Task.exec_pure,closing,reading,Task.exec_modify]
    rw [← final]
    rfl
  · rw [array]
    refine ((rooted.layout.congr device bits).congr_owner newRoot_owns).image fun z _ => by rw [device]
  · rw [after]
    exact ⟨unset,rfl,openMap_only closed d,_,_,_,mapped.pointer,mapped.file,mapped.cell,mapped.once,mapped.kept,mapped.alone,mapped.sector,
      mapped.held⟩
  · rw [array]
    exact fun i listed => absurd listed (newRoot_unlisted i)
  · rw [array]
    exact fun i listed => absurd listed (newRoot_unlisted i)
  · intro f pointer
    obtain rfl : h.files.next = f := by
      rw [after] at pointer
      exact Option.some.inj pointer
    rw [again.data,device,inode]
  · exact (made.marks.trans rooted.marks).congr bits (final ▸ rfl) (final ▸ rfl)
  · have later := rooted.count
    rw [bits]
    omega
  · have limit := blank.limit
    have map := inodeCreate_order blank.ready blank.origin _ false (by omega) (by omega) front mapRun
    have root := inodeCreate_order made.ready (made.marks.mono _ blank.root) 36000 true (by decide) (by decide)
      (mapBits ▸ map.front) rootRun
    rw [bits]
    exact ⟨_,root.front.marks rooted.ready.packed rootMarks rootCount⟩

end
end MyShell.FS
