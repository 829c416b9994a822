import MyShell.FS.Rebuild
import MyShell.FS.Traversal
import MyShell.FS.Positions

/-! `count_fragmented_files` of fsutil2.c: which files it counts, and that there are none after
the files of a clean file system were created one after the other. -/
namespace MyShell.FS
open BlockProgram PointerForest Bitmap

/-- The loop over the data sectors of a file. Their difference is unsigned. -/
def isFragmented (sectors : List Nat) (length : Int) : Bool :=
  (List.range' 1 ((length.tdiv 512).toNat - 1)).any fun i =>
    3 < (sectors.getD i 0 + 4294967296 - sectors.getD (i-1) 0) % 4294967296

/-- A file of negative length, for which there are no sectors, counts as whole. -/
def fragmentedFile (inode : Nat) : FsM Bool := do
  let sectors ← getInodeDataSectors inode
  let length ← inodeLength inode
  pure (isFragmented (sectors.getD []) length)

/-- The body of the loop over the entries in use. The inode stays open. -/
def fragmentedEntry (entry : List Byte × Nat) : FsM Bool := do
  let inode ← inodeOpen entry.2
  let isDirectory ← inodeIsDirectory inode
  let removed ← inodeIsRemoved inode
  if !isDirectory && !removed then fragmentedFile inode else pure false

def countFragmentedFiles : FsM Nat := do
  let fragmented ← overRoot nextInode fragmentedEntry
  return fragmented.count true

/-- The data sectors of the file in the sector `x`, as `count_fragmented_files` gets them. -/
def fileDataSectors (x : Nat) : FsM (Option (List Nat)) := do
  let inode ← inodeOpen x
  getInodeDataSectors inode

/-- Two data sectors that follow each other in a file but not on the device. -/
def Jump (sectors : List Nat) : Prop :=
  ∃ i, i + 1 < sectors.length ∧ (sectors.getD (i+1) 0 < sectors.getD i 0 ∨ sectors.getD i 0 + 3 < sectors.getD (i+1) 0)

/-- The entry `i` is a regular file. -/
def RegularAt (img : Nat → Sector) (s : Volume) (i : Nat) : Prop :=
  ListedAt (rootArray s) i ∧ (img (entrySector s i)).isDir = false

/-- The data sectors of the file at the entry `i`. -/
def sectorsAt (img : Nat → Sector) (s : Volume) (i : Nat) : List Nat :=
  dataSectors (img (entrySector s i)) s.device

/-- What `count_fragmented_files` finds at the entry `i`. -/
def fragmentedAt (img : Nat → Sector) (s : Volume) (i : Nat) : Bool :=
  !(img (entrySector s i)).isDir && isFragmented (sectorsAt img s i) (img (entrySector s i)).length

section
variable {sectors : List Nat} {length : Int} {d : Sector} {mem : Nat → Sector}

/-- The loop sees the jumps in front of its bound. -/
theorem isFragmented_iff (sound : ∀ y ∈ sectors, 2 ≤ y ∧ y < noSector) (whole : (length.tdiv 512).toNat ≤ sectors.length) :
    isFragmented sectors length = true ↔ Jump (sectors.take (length.tdiv 512).toNat) := by
  have entry (i : Nat) (inside : i < sectors.length) : 2 ≤ sectors.getD i 0 ∧ sectors.getD i 0 < 4294967295 := by
    rw [List.getD_eq_getElem _ _ inside]
    exact sound _ (List.getElem_mem inside)
  have taken (i : Nat) (inside : i < (length.tdiv 512).toNat) :
      (sectors.take (length.tdiv 512).toNat).getD i 0 = sectors.getD i 0 := by
    simp only [List.getD_eq_getElem?_getD,List.getElem?_take,if_pos inside]
  unfold isFragmented Jump
  rw [List.any_eq_true,List.length_take,Nat.min_eq_left whole]
  constructor
  · rintro ⟨i,member,far⟩
    obtain ⟨low,high⟩ := List.mem_range'_1.mp member
    have here := entry i (by omega)
    have before := entry (i-1) (by omega)
    rw [decide_eq_true_iff] at far
    refine ⟨i-1,by omega,?_⟩
    rw [Nat.sub_add_cancel low,taken i (by omega),taken (i-1) (by omega)]
    omega
  · rintro ⟨i,inside,jump⟩
    have here := entry (i+1) (by omega)
    have before := entry i (by omega)
    rw [taken i (by omega),taken (i+1) inside] at jump
    refine ⟨i+1,List.mem_range'_1.mpr ⟨by omega,by omega⟩,?_⟩
    rw [decide_eq_true_iff,Nat.add_sub_cancel]
    omega

theorem Jump.of_take {n : Nat} (jump : Jump (sectors.take n)) : Jump sectors := by
  obtain ⟨i,inside,far⟩ := jump
  rw [List.length_take] at inside
  have taken (k : Nat) (low : k < n) : (sectors.take n).getD k 0 = sectors.getD k 0 := by
    simp only [List.getD_eq_getElem?_getD,List.getElem?_take,if_pos low]
  rw [taken i (by omega),taken (i+1) (by omega)] at far
  exact ⟨i,by omega,far⟩

instance : Decidable (Jump sectors) :=
  decidable_of_iff ((List.range (sectors.length - 1)).any fun i =>
    decide (sectors.getD (i+1) 0 < sectors.getD i 0 ∨ sectors.getD i 0 + 3 < sectors.getD (i+1) 0)) (by
    rw [List.any_eq_true]
    refine exists_congr fun i => ?_
    rw [List.mem_range,decide_eq_true_iff]
    refine and_congr_left fun _ => ?_
    omega)

/-- The whole sectors of a file are among its data sectors. -/
theorem Backed.whole (backed : Backed d mem) : (d.length.tdiv 512).toNat ≤ (dataSectors d mem).length := by
  obtain ⟨n,total⟩ := Int.eq_ofNat_of_zero_le backed.natural
  have limit := backed.limit
  have count := bytesToSectors_nat n (by omega)
  have quotient : (n : Int).tdiv 512 = (n / 512 : Nat) := (Int.ofNat_tdiv _ 512).symm
  unfold dataSectors
  rw [List.length_map,List.length_range,total,count,quotient,Int.toNat_natCast]
  omega

end

section
variable {img : Nat → Sector} {s t : Volume} {h : Handles} {dir p i : Nat} {openCnt : Int} {J : Handles → Prop}

theorem exec_fragmentedFile (p : Nat) {d : Sector} (data : (s.vars.handles.inode p).data = d) (backed : Backed d s.device) :
    (fragmentedFile p).exec s = (isFragmented (dataSectors d s.device) d.length,s) := by
  have length : (inodeLength p).exec s = (d.length,s) := by rw [← data]; rfl
  unfold fragmentedFile
  rw [Task.exec_bind,exec_getInodeDataSectors p s data backed.natural backed.limit]
  dsimp only
  rw [Task.exec_bind,length]
  dsimp only
  rw [Task.exec_pure,Option.getD_some]
  rfl

/-- The inode of an entry, opened in the body of a loop. -/
theorem Walk.openEntry (walk : Walk img s J dir p openCnt i (i+1) t) (listing : Listing img s)
    (listed : ListedAt (rootArray s) i) (grows : ∀ h h', J h → h.Extends h' → J h') :
    ∃ q h, (inodeOpen (entrySector s i)).exec t = (q,withHandles t h) ∧
      (h.inode q).data = img (entrySector s i) ∧ (h.inode q).removed = false ∧
      Walk img s J dir p openCnt (i+1) (i+1) (withHandles t h) := by
  have ahead := ahead_listed listed (Nat.le_refl i)
  rw [← walk.array] at ahead
  obtain ⟨q,h,c,opening,mirrors,more,cell,-,data,kept,-,-⟩ := walk.mirrors.open (walk.listing listing) ahead
  rw [walk.array] at opening data
  have inode : h.inode q = c := ObjectHeap.deref_of_cell _ _ _ cell
  refine ⟨q,h,opening,?_,?_,?_⟩
  · rw [inode,data]
    rfl
  · rw [inode,kept]
  · exact ⟨withHandles_of_same walk.same h,walk.handle.extends more,mirrors.mono (Nat.le_succ i),walk.behind,
      grows _ _ walk.more more⟩

theorem Walk.fragmentedEntry {name : List Byte} (walk : Walk img s J dir p openCnt i (i+1) t) (listing : Listing img s)
    (listed : ListedAt (rootArray s) i) (grows : ∀ h h', J h → h.Extends h' → J h') :
    ∃ u, (FS.fragmentedEntry (name,entrySector s i)).exec t = (fragmentedAt img s i,u) ∧
      Walk img s J dir p openCnt (i+1) (i+1) u := by
  obtain ⟨q,h,opening,data,kept,after⟩ := walk.openEntry listing listed grows
  have directory : (inodeIsDirectory q).exec (withHandles t h) = ((img (entrySector s i)).isDir,withHandles t h) := by
    rw [← data]
    rfl
  have removed : (inodeIsRemoved q).exec (withHandles t h) = (false,withHandles t h) := by
    rw [← kept]
    rfl
  have backed : Backed (img (entrySector s i)) (withHandles t h).device := by
    rw [after.device]
    exact listing.backed _ (owns_listed listed)
  have file := exec_fragmentedFile (s := withHandles t h) q data backed
  rw [after.device] at file
  refine ⟨withHandles t h,?_,after⟩
  unfold FS.fragmentedEntry
  rw [Task.exec_bind,opening]
  simp only
  rw [Task.exec_bind,directory]
  simp only
  rw [Task.exec_bind,removed]
  unfold fragmentedAt sectorsAt
  cases (img (entrySector s i)).isDir with
  | true => rfl
  | false =>
    simp only [Bool.not_false,Bool.and_self,if_true,Bool.true_and]
    exact file

/-- `count_fragmented_files` counts the files it finds fragmented from its starting entry on. -/
theorem FileState.countFragmentedFiles (state : FileState img s) :
    (FS.countFragmentedFiles.exec s).1 = (usedFrom (rootArray s) (startEntry s)).countP (fragmentedAt img s) := by
  obtain ⟨dir,p,openCnt,h,opening,opened⟩ := state.opening
  obtain ⟨t,k,run,-⟩ := exec_overRoot (J := fun _ => True) opened opening state.listing trivial
    (fun t j walk => by
      have reading := exec_nextInode walk.handle (walk.listing state.listing) walk.behind
      rw [walk.array] at reading
      have sectors (i : Nat) : entrySector t i = entrySector s i := entrySector_congr walk.array i
      simp only [sectors] at reading
      exact reading)
    (fun _ _ _ => trivial) (fun t i listed walk => walk.fragmentedEntry state.listing listed fun _ _ _ _ => trivial)
  unfold FS.countFragmentedFiles
  rw [Task.exec_bind,run]
  simp only
  rw [Task.exec_pure,List.count,List.countP_map]
  exact List.countP_congr fun i _ => by rw [Function.comp_apply,beq_iff_eq]

end

/-- The files that a count over all data sectors finds fragmented. -/
def fragmentedFiles (img : Nat → Sector) (s : Volume) : Nat :=
  (usedFrom (rootArray s) 1).countP fun i => !(img (entrySector s i)).isDir && decide (Jump (sectorsAt img s i))

/-- The whole sectors of the file at the entry `i`, which are those that the counter looks at. -/
def wholeSectors (img : Nat → Sector) (s : Volume) (i : Nat) : List Nat :=
  (sectorsAt img s i).take ((img (entrySector s i)).length.tdiv 512).toNat

section
variable {reserved dirty : Nat → Prop} {img : Nat → Sector} {s t : Volume} {d : Sector} {mem : Nat → Sector} {i x : Nat}

theorem fragmentedAt_iff (listing : Listing img s) (listed : ListedAt (rootArray s) i) :
    fragmentedAt img s i = true ↔ (img (entrySector s i)).isDir = false ∧ Jump (wholeSectors img s i) := by
  have owns := owns_listed listed
  have loop := isFragmented_iff (listing.sectors _ owns) (listing.backed _ owns).whole
  unfold fragmentedAt
  rw [Bool.and_eq_true_iff,Bool.not_eq_true']
  exact and_congr_right fun _ => loop

theorem FileState.start (state : FileState img s) : 1 ≤ startEntry s := by
  obtain ⟨dir,p,openCnt,h,-,opened⟩ := state.opening
  exact opened.start

/-- The count is that of all fragmented files exactly if none of them is passed over. -/
theorem FileState.count_exact (state : FileState img s) :
    (FS.countFragmentedFiles.exec s).1 = fragmentedFiles img s ↔ ∀ i, RegularAt img s i → Jump (sectorsAt img s i) →
      startEntry s ≤ i ∧ Jump (wholeSectors img s i) := by
  rw [state.countFragmentedFiles,countP_usedFrom _ state.start]
  unfold fragmentedFiles
  have sound (i : Nat) (member : i ∈ usedFrom (rootArray s) 1) :
      (decide (startEntry s ≤ i) && fragmentedAt img s i) = true →
        (!(img (entrySector s i)).isDir && decide (Jump (sectorsAt img s i))) = true := by
    rw [Bool.and_eq_true_iff,fragmentedAt_iff state.listing (mem_usedFrom_one.mp member),Bool.and_eq_true_iff,
      Bool.not_eq_true']
    exact fun found => ⟨found.2.1,decide_eq_true found.2.2.of_take⟩
  rw [countP_eq_iff _ _ _ sound]
  refine forall_congr' fun i => ?_
  rw [mem_usedFrom_one]
  constructor
  · rintro all ⟨listed,regular⟩ jump
    have found := all listed (by rw [regular,decide_eq_true jump]; rfl)
    rw [Bool.and_eq_true_iff,fragmentedAt_iff state.listing listed,decide_eq_true_iff] at found
    exact ⟨found.1,found.2.2⟩
  · intro all listed counted
    rw [Bool.and_eq_true_iff,Bool.not_eq_true',decide_eq_true_iff] at counted
    rw [Bool.and_eq_true_iff,fragmentedAt_iff state.listing listed,decide_eq_true_iff]
    have found := all ⟨listed,counted.1⟩ counted.2
    exact ⟨found.1,counted.1,found.2⟩

theorem Mounted.fileState (mounted : Mounted reserved dirty s) : FileState s.device s :=
  (mounted.serving fun _ => False).fileState

theorem Mounted.startEntry (mounted : Mounted reserved dirty s) : FS.startEntry s = 1 := by
  unfold FS.startEntry
  rw [mounted.idle.unset]

/-- The count is zero exactly if no file of the root directory is fragmented. -/
theorem Mounted.countFragmentedFiles (mounted : Mounted reserved dirty s) :
    (FS.countFragmentedFiles.exec s).1 = 0 ↔ ∀ i, ListedAt (rootArray s) i → fragmentedAt s.device s i = false := by
  rw [mounted.fileState.countFragmentedFiles,mounted.startEntry,List.countP_eq_zero]
  refine forall_congr' fun i => ?_
  rw [mem_usedFrom_one,Bool.not_eq_true]

theorem length_dataSectors (d : Sector) (mem : Nat → Sector) : (dataSectors d mem).length = bytesToSectors d.length := by
  unfold dataSectors
  rw [List.length_map,List.length_range]

theorem Layout.getD_dataSectors {owner : Nat → Prop} (layout : Layout reserved owner img s) (owns : owner x) (k : Nat)
    (inside : k < bytesToSectors (img x).length) :
    (dataSectors (img x) s.device).getD k 0 = dataSector (img x) s.device k := by
  rw [layout.dataSectors_eq owns,List.getD_eq_getElem?_getD,List.getElem?_map,List.getElem?_range inside]
  rfl

/-- Sectors at most three apart are no jump. -/
theorem Spaced.no_jump (spaced : Spaced (s.device x) s.device) (layout : Layout reserved (Owns (rootArray s)) s.device s)
    (owns : Owns (rootArray s) x) : ¬Jump (dataSectors (s.device x) s.device) := by
  rintro ⟨k,inside,far⟩
  rw [length_dataSectors] at inside
  have step := spaced k inside
  rw [layout.getD_dataSectors owns k (by omega),layout.getD_dataSectors owns (k+1) inside] at far
  omega

theorem Mounted.spaced_whole (mounted : Mounted reserved dirty s) (listed : ListedAt (rootArray s) i)
    (spaced : Spaced (s.device (entrySector s i)) s.device) : fragmentedAt s.device s i = false := by
  rw [Bool.eq_false_iff]
  intro found
  exact spaced.no_jump mounted.layout (owns_listed listed)
    ((fragmentedAt_iff mounted.fileState.listing listed).mp found).2.of_take

/-- A file that was carried over has the same data sectors. -/
theorem Carried.dataSectors_eq (carried : Carried s t x) (before : Layout reserved (Owns (rootArray s)) s.device s)
    {reserved' : Nat → Prop} (after : Layout reserved' (Owns (rootArray t)) t.device t) (owns : Owns (rootArray s) x)
    (owns' : Owns (rootArray t) x) : dataSectors (t.device x) t.device = dataSectors (s.device x) s.device := by
  have limit := before.limit x owns
  have natural := before.natCast owns
  have count := bytesToSectors_nat (s.device x).length.toNat (by omega)
  rw [natural] at count
  rw [before.dataSectors_eq owns,after.dataSectors_eq owns',carried.inode]
  refine List.map_congr_left fun k member => ?_
  rw [List.mem_range] at member
  exact carried.tree _ _ (dataPath_key k (by omega)).1

end

/-- The file of that name and size has data sectors of which every two that follow each other
are one, two or three apart. -/
def CloseSectors (s : Volume) (file : CString × Int) : Prop :=
  ∃ x sectors, sectorOf s file.1 = some x ∧ (s.device x).length = file.2 ∧ ((fileDataSectors x).exec s).1 = some sectors ∧
    sectors.length = bytesToSectors file.2 ∧
    ∀ k, k + 1 < sectors.length → sectors.getD (k+1) 0 - sectors.getD k 0 ∈ [1,2,3]

section
variable {reserved dirty : Nat → Prop} {s t : Volume} {file : CString × Int} {files : List (CString × Int)} {i m : Nat}

theorem Mounted.fileDataSectors (mounted : Mounted reserved dirty s) (listed : ListedAt (rootArray s) i) :
    ((FS.fileDataSectors (entrySector s i)).exec s).1 =
      some (dataSectors (s.device (entrySector s i)) s.device) := by
  have owns : Owns (rootArray s) (entrySector s i) := owns_listed listed
  have inode := inode_openInode s.vars.handles (entrySector s i) (s.device (entrySector s i)) s.vars.handles.inodes.next
  rw [if_pos rfl] at inode
  have sectors := exec_getInodeDataSectors s.vars.handles.inodes.next
    (withHandles s (s.vars.handles.openInode (entrySector s i) (s.device (entrySector s i)))) (congrArg Inode.data inode)
    (mounted.layout.natural _ owns) (mounted.layout.limit _ owns)
  unfold FS.fileDataSectors
  rw [Task.exec_bind,exec_inodeOpen_new s _ (mounted.idle.unopened (mounted.nonzero owns))]
  exact congrArg Prod.fst sectors

theorem Rebuilt.close (rebuilt : Rebuilt reserved dirty s t files) (member : file ∈ files) : CloseSectors t file := by
  have mounted := rebuilt.mounted
  obtain ⟨x,named,length,spaced⟩ := rebuilt.created file member
  obtain ⟨i,-,listed,here⟩ := listed_of_sectorOf named
  obtain rfl : entrySector t i = x := here
  have owns : Owns (rootArray t) (entrySector t i) := owns_listed listed
  refine ⟨_,_,named,length,mounted.fileDataSectors listed,?_,fun k inside => ?_⟩
  · rw [length_dataSectors]
    exact congrArg bytesToSectors length
  · rw [length_dataSectors] at inside
    have step := spaced k inside
    have low := mounted.layout.getD_dataSectors owns k (by omega)
    have high := mounted.layout.getD_dataSectors owns (k+1) inside
    rw [low,high]
    generalize dataSector _ _ k = low at step
    generalize dataSector _ _ (k+1) = high at step
    have gap : high - low = 1 ∨ high - low = 2 ∨ high - low = 3 := by omega
    simpa using gap

/-- The files that were there before have the data sectors that they had. -/
theorem Rebuilt.count_zero (rebuilt : Rebuilt reserved dirty s t files) (mounted : Mounted reserved dirty s)
    (zero : (countFragmentedFiles.exec s).1 = 0) : (countFragmentedFiles.exec t).1 = 0 := by
  have after := rebuilt.mounted
  refine after.countFragmentedFiles.mpr fun i listed => ?_
  rcases rebuilt.only _ ⟨i,listed,rfl⟩ with ⟨j,old,same⟩ | spaced
  · have whole := mounted.countFragmentedFiles.mp zero j old
    have carried := rebuilt.carried _ ⟨j,old,rfl⟩
    have sectors := carried.dataSectors_eq mounted.layout after.layout (owns_listed old)
      (by rw [same]; exact owns_listed listed)
    have inode := carried.inode
    rw [same] at sectors inode
    unfold fragmentedAt sectorsAt entrySector at whole ⊢
    rw [same] at whole
    rw [sectors,inode]
    exact whole
  · exact after.spaced_whole listed spaced

end

theorem firstMap_front (size : Nat) (some : 2 ≤ size - 1) : FreeFrom (firstMap size) 2 := by
  intro y below
  have marks : firstMap size = bitmapSet (bitmapSet (bitmapCreate (size - 1)) freeMapSector true) rootDirSector true := rfl
  have packed := create_packed (size - 1)
  have count := create_bitCnt (size - 1)
  have zero : freeMapSector < (bitmapCreate (size - 1)).bitCnt := by
    rw [count]
    exact Nat.lt_of_lt_of_le (by decide) some
  have first := set_packed _ packed freeMapSector true zero
  have inside : rootDirSector < (bitmapSet (bitmapCreate (size - 1)) freeMapSector true).bitCnt := by
    rw [set_bitCnt,count]
    exact some
  rw [marks,test_set _ first.length _ _ _ inside,test_set _ packed.length _ _ _ zero,create_test]
  unfold rootDirSector freeMapSector
  by_cases one : y = 1
  · rw [if_pos one,one]
    rfl
  · rw [if_neg one]
    by_cases null : y = 0
    · rw [if_pos null,null]
      rfl
    · rw [if_neg null]
      exact (decide_eq_false (by omega)).symm

def nameB : CString := ⟨[98],by decide⟩

theorem freeSlots_newRoot : 2 ≤ freeSlots newRoot := by
  have unused (i : Nat) (positive : 1 ≤ i) (inside : i < 1000) : (entryAt newRoot i).inUse = false := by
    rw [Bool.eq_false_iff]
    intro used
    exact newRoot_unlisted i ⟨positive,by rw [newRoot_count]; exact inside,used⟩
  unfold freeSlots
  rw [newRoot_count,List.range_eq_range',show 1000 = 1 + (2 + 997) from rfl,← List.range'_append_1,← List.range'_append_1,
    List.countP_append,List.countP_append]
  have two : (List.range' (0 + 1) 2).countP (fun i => !(entryAt newRoot i).inUse) = 2 := by
    have one := unused 1 (by decide) (by decide)
    have other := unused 2 (by decide) (by decide)
    change List.countP _ [1,2] = 2
    rw [List.countP_cons_of_pos (by rw [one]; rfl),List.countP_cons_of_pos (by rw [other]; rfl),List.countP_nil]
  omega

/-- Two files fit on the new device, and its free map is contiguous. -/
theorem formatted_blankStore_creatable :
    (∃ m, FreeFrom (volume (formatted blankStore)).vars.freeMap m) ∧
      Creatable (volume (formatted blankStore)) [(nameA,512),(nameB,1024)] := by
  obtain ⟨reserved,dirty,made⟩ := formatted_spec blankStore blankStore_formattable
  have room := formatted_blankStore_clear.1
  have sizes : (([(nameA,512),(nameB,1024)] : List (CString × Int)).map fun f => 1 + blocksFor f.2).sum ≤ 2 + blocksFor 5000 := by
    decide +kernel
  have absent (name : CString) : sectorOf (volume (formatted blankStore)) name = none := by
    unfold sectorOf
    rw [made.array]
    cases found : findName newRoot name with
    | none => rfl
    | some i => exact absurd (findName_listed found).1 (newRoot_unlisted i)
  refine ⟨made.front 2 (firstMap_front _ (by decide)),?_,?_,fun f _ => absent f.1,?_,Nat.le_trans sizes room,?_⟩
  · decide
  · decide
  · decide
  · rw [made.array]
    exact freeSlots_newRoot

section
variable {reserved dirty : Nat → Prop} {s t : Volume} {m : Nat} {name : CString}

/-- The only data sector of a new file of one sector is behind its inode. -/
theorem Made.single_block (made : Made reserved dirty (Owns (rootArray s)) s t m name 512) (order : BlocksFrom t m (m+1) 512)
    (front : FreeFrom s.vars.freeMap m) (mounted : Mounted reserved dirty t) (owns : Owns (rootArray t) m) :
    dataSector (t.device m) t.device 0 = m + 1 ∧ dataSector (t.device m) t.device 1 = 0 := by
  have first : dataSector (t.device m) t.device 0 = m + 1 :=
    FirstFit.target_eq order 0 (dataPath 0) (inodeReach_place _ 0 (by decide) (by decide))
  refine ⟨first,?_⟩
  by_contra present
  have key := (dataPath_key 1 (by decide)).1
  have clear := made.fresh _ _ key present
  have marked := mounted.layout.forest.marked _ _ ((inodePart owns).key _ _ key) present
  have apart := mounted.layout.data_apart owns 1 (by decide) present
  change bitmapTest s.vars.freeMap (dataSector (t.device m) t.device 1) = false at clear
  change bitmapTest t.vars.freeMap (dataSector (t.device m) t.device 1) = true at marked
  have single : dataSector (t.device m) t.device 1 ≠ m + 1 := by
    intro same
    have met := mounted.layout.dataSector_inj owns owns 1 0 (by decide) (by decide) present (same.trans first.symm)
    exact absurd met.2 (by decide)
  have inside : dataSector (t.device m) t.device 1 < t.vars.freeMap.bitCnt := by
    by_contra beyond
    rw [mounted.ready.packed.unused _ (by omega)] at marked
    exact Bool.false_ne_true marked
  have low := front _ (made.marks.size ▸ inside)
  have high := order.front _ inside
  rw [clear] at low
  rw [marked] at high
  have blocks : (inodeReach (bytesToSectors 512)).length = 1 := by decide
  rw [blocks] at high
  have above := of_decide_eq_false low.symm
  have below := of_decide_eq_true high.symm
  have other : dataSector (t.device m) t.device 1 ≠ m :=
    fun same => apart (Or.inr (by rw [same]; exact owns))
  omega

/-- A file of one sector gets a second one behind another file. -/
theorem Mounted.extend_jump (mounted : Mounted reserved dirty s) (front : FreeFrom s.vars.freeMap m)
    (creatable : Creatable s [(nameA,512),(nameB,1024)]) (room : 7 ≤ s.vars.freeMap.clearCount) :
    ∃ v w u, (filesysCreate [] nameA 512 false).exec s = (true,v) ∧ (filesysCreate [] nameB 1024 false).exec v = (true,w) ∧
      ListedSector w m ∧ (writeSector m [7] 1 512).exec w = (1,u) ∧ Mounted reserved dirty u ∧
      ∃ i, RegularAt u.device u i ∧ Jump (sectorsAt u.device u i) ∧ ¬Jump (wholeSectors u.device u i) := by
  obtain ⟨v,runA,addedA,frontA,creatableB,made,order⟩ := mounted.create_next front creatable []
  obtain ⟨w,runB,addedB,frontB,-,madeB,-⟩ := addedA.mounted.create_next frontA creatableB []
  obtain ⟨j,-,listedA,sectorA⟩ := listed_of_sectorOf addedA.named
  have ownsA : Owns (rootArray v) m := Or.inr ⟨j,listedA,sectorA⟩
  have carried := addedB.carried m ⟨j,listedA,sectorA⟩
  obtain ⟨first,second⟩ := made.single_block order front addedA.mounted ownsA
  obtain ⟨ownsB,apartB⟩ := addedB.mounted.inside carried.listed
  have tree (k : Nat) (inside : k < 16635) : dataSector (w.device m) w.device k = dataSector (v.device m) v.device k := by
    rw [carried.inode]
    exact carried.tree _ _ (dataPath_key k inside).1
  rw [← tree 0 (by decide)] at first
  rw [← tree 1 (by decide)] at second
  -- the write takes one more sector, of those that were free
  obtain ⟨done,u,run,same,stored⟩ := writeSector_spec addedB.mounted.layout addedB.mounted.ready addedB.mounted.origin ownsB
    addedB.mounted.idle.closed.live (addedB.mounted.idle.unopened (addedB.mounted.nonzero ownsB)) [7] 512 1 (by decide)
    (by decide) (by decide)
  have blocks : blocksFor 512 = 1 ∧ blocksFor 1024 = 2 ∧ blocksFor (512 + 1 : Nat) = 2 := by decide
  have countA := made.count
  have countB := madeB.count
  simp only at countA countB
  have growthA := (mounted.slot_room (Nat.lt_of_lt_of_le (by decide) creatable.slots)).1
  have growthB := (addedA.mounted.slot_room (Nat.lt_of_lt_of_le (by decide) creatableB.slots)).1
  have most := need_le (w.device m) w.device (512 + 1)
  have success : done = true := by
    by_contra failed
    have short := ((stored.counts (by decide)).short (Bool.eq_false_of_not_eq_true failed)).2
    omega
  have limit : 512 + 1 ≤ 8517120 := by omega
  rw [if_pos ⟨success,limit⟩] at run
  have size : (w.device m).length = 512 := (congrArg Sector.length carried.inode).trans addedA.size
  obtain ⟨after,array⟩ := addedB.mounted.stored same apartB stored
  have gains := stored.gains success limit
  have bytes := congrArg List.length (stored.written success limit)
  rw [length_contents,length_arrayWrite,length_contents,size] at bytes
  obtain ⟨i,listed,here⟩ := carried.listed
  have listed' : ListedAt (rootArray u) i := by
    rw [array]
    exact listed
  have sector : entrySector u i = m := by
    unfold entrySector
    rw [array]
    exact here
  have owns : Owns (rootArray u) m := by
    rw [← sector]
    exact owns_listed listed'
  have natural := after.layout.natural m owns
  have length : (u.device m).length = 513 := by
    have total : max (512 : Int).toNat (512 + 1) = 513 := by decide
    have same := Int.toNat_of_nonneg natural
    rw [bytes,total] at same
    exact same.symm
  have count : bytesToSectors 513 = 2 := by decide
  have kept := gains.kept _ _ (dataPath_key 0 (by decide)).1 (by
    change dataSector (w.device m) w.device 0 ≠ 0
    omega)
  have present := after.layout.present owns 1 (by rw [length]; decide)
  have fresh := gains.fresh _ _ (dataPath_key 1 (by decide)).1 present
  change dataSector (u.device m) u.device 0 = dataSector (w.device m) w.device 0 at kept
  change dataSector (u.device m) u.device 1 = dataSector (w.device m) w.device 1 ∨
    bitmapTest w.vars.freeMap (dataSector (u.device m) u.device 1) = false at fresh
  have marked := after.layout.forest.marked _ _ ((inodePart owns).key _ _ (dataPath_key 1 (by decide)).1) present
  change bitmapTest u.vars.freeMap (dataSector (u.device m) u.device 1) = true at marked
  have inside : dataSector (u.device m) u.device 1 < w.vars.freeMap.bitCnt := by
    rw [← stored.marks.size]
    by_contra beyond
    rw [after.ready.packed.unused _ (by omega)] at marked
    exact Bool.false_ne_true marked
  have far : m + 5 ≤ dataSector (u.device m) u.device 1 := by
    rcases fresh with old | clear
    · exact absurd (old.trans second) present
    · have place := frontB _ inside
      rw [clear] at place
      have above := of_decide_eq_false place.symm
      rw [blocks.1,blocks.2.1] at above
      omega
  have sectors : sectorsAt u.device u i = [m + 1,dataSector (u.device m) u.device 1] := by
    unfold sectorsAt
    rw [sector,after.layout.dataSectors_eq owns,length,count]
    change [dataSector (u.device m) u.device 0,dataSector (u.device m) u.device 1] = _
    rw [kept,first]
  refine ⟨v,w,u,runA,runB,⟨i,listed,here⟩,run,after,i,⟨listed',after.regular i listed'⟩,?_,?_⟩
  · rw [sectors]
    exact ⟨0,Nat.lt_succ_self 1,Or.inr (by change m + 1 + 3 < dataSector (u.device m) u.device 1; omega)⟩
  · unfold wholeSectors
    rw [sectors,sector,length]
    rintro ⟨k,more,-⟩
    change k + 1 < 1 at more
    omega

/-- The same run on the device behind its cache. -/
theorem Mounted.jumping_run {s : FileSys} (mounted : Mounted reserved dirty (volume s))
    (front : FreeFrom (volume s).vars.freeMap m) (creatable : Creatable (volume s) [(nameA,512),(nameB,1024)])
    (room : 7 ≤ (volume s).vars.freeMap.clearCount) : ∃ t, Reached s t ∧ FileState (volume t).device (volume t) ∧
      (FS.countFragmentedFiles.exec t).1 ≠ fragmentedFiles (volume t).device (volume t) := by
  obtain ⟨v,w,u,runA,runB,listed,run,after,i,regular,jump,whole⟩ := mounted.extend_jump front creatable room
  have first : volume ((FileOp.create [] nameA 512).task.exec s).2 = v := by
    rw [exec_volume] at runA
    rw [exec_create_task]
    exact (Prod.mk.inj runA).2
  have reachA : Reached s _ := .step (.create [] nameA 512) .start ⟨by decide,by decide⟩
  generalize ((FileOp.create [] nameA 512).task.exec s).2 = sA at first reachA
  subst first
  have second : volume ((FileOp.create [] nameB 1024).task.exec sA).2 = w := by
    rw [exec_volume] at runB
    rw [exec_create_task]
    exact (Prod.mk.inj runB).2
  have reachB : Reached s _ := .step (.create [] nameB 1024) reachA ⟨by decide,by decide⟩
  generalize ((FileOp.create [] nameB 1024).task.exec sA).2 = sB at second reachB
  subst second
  have last : volume ((FileOp.write m [7] 1 512).task.exec sB).2 = u := by
    rw [exec_volume] at run
    rw [exec_writeSector_task]
    exact (Prod.mk.inj run).2
  have reach : Reached s _ := .step (.write m [7] 1 512) reachB ⟨listed,by decide,by decide,by decide,by decide⟩
  generalize ((FileOp.write m [7] 1 512).task.exec sB).2 = t at last reach
  subst last
  have exact := after.fileState.count_exact
  rw [exec_volume] at exact
  exact ⟨t,reach,after.fileState,fun same => whole (exact.mp same i regular jump).2⟩

end

/-- The counter finds every fragmented file exactly if each of them has a jump between two whole
sectors and is not in front of the position of the root directory. -/
theorem count_fragmented_iff (s : FileSys) (img : Nat → Sector) (state : FileState img (volume s)) :
    (countFragmentedFiles.exec s).1 = fragmentedFiles img (volume s) ↔
      ∀ i, RegularAt img (volume s) i → Jump (sectorsAt img (volume s) i) →
        startEntry (volume s) ≤ i ∧ Jump (wholeSectors img (volume s) i) := by
  have exact := state.count_exact
  rw [exec_volume] at exact
  exact exact

theorem count_fragmented_blankStore :
    (countFragmentedFiles.exec (formatted blankStore)).1 =
        fragmentedFiles (volume (formatted blankStore)).device (volume (formatted blankStore)) ↔
      ∀ i, RegularAt (volume (formatted blankStore)).device (volume (formatted blankStore)) i →
        Jump (sectorsAt (volume (formatted blankStore)).device (volume (formatted blankStore)) i) →
          startEntry (volume (formatted blankStore)) ≤ i ∧
            Jump (wholeSectors (volume (formatted blankStore)).device (volume (formatted blankStore)) i) := by
  obtain ⟨reserved,dirty,sane⟩ := formatted_sane blankStore blankStore_formattable
  exact count_fragmented_iff _ _ sane.mounted.fileState

/-- A file whose second sector, of one byte, is behind another file. -/
theorem partial_block_uncounted : ∃ s, Reached (formatted blankStore) s ∧ FileState (volume s).device (volume s) ∧
    (countFragmentedFiles.exec s).1 ≠ fragmentedFiles (volume s).device (volume s) := by
  obtain ⟨reserved,dirty,sane⟩ := formatted_sane blankStore blankStore_formattable
  obtain ⟨⟨m,front⟩,creatable⟩ := formatted_blankStore_creatable
  have blocks : 7 ≤ 2 + blocksFor 5000 := by decide +kernel
  exact sane.mounted.jumping_run front creatable (Nat.le_trans blocks formatted_blankStore_clear.1)

/-- The files created one after the other on a contiguous free map have data sectors at most
three apart, and the counter that found no fragmented files before finds none after. -/
theorem rebuild_unfragmented {reserved dirty : Nat → Prop} {m : Nat} (s : FileSys) (mounted : Mounted reserved dirty (volume s))
    (front : FreeFrom (volume s).vars.freeMap m) (files : List (CString × Int)) (creatable : Creatable (volume s) files)
    (stale : List Byte) :
    ((rebuild stale files).exec s).1 = List.replicate files.length true ∧
      (∀ file ∈ files, CloseSectors (volume ((rebuild stale files).exec s).2) file) ∧
      ((countFragmentedFiles.exec s).1 = 0 → (countFragmentedFiles.exec ((rebuild stale files).exec s).2).1 = 0) := by
  obtain ⟨t,run,rebuilt⟩ := mounted.rebuild front files creatable stale
  rw [exec_volume] at run
  obtain ⟨created,rfl⟩ := Prod.mk.inj run
  have counted := rebuilt.count_zero mounted
  rw [exec_volume,exec_volume] at counted
  exact ⟨created,fun file member => rebuilt.close member,counted⟩

theorem rebuild_blankStore :
    CloseSectors (volume ((rebuild [] [(nameA,512),(nameB,1024)]).exec (formatted blankStore)).2) (nameB,1024) := by
  obtain ⟨reserved,dirty,sane⟩ := formatted_sane blankStore blankStore_formattable
  obtain ⟨⟨m,front⟩,creatable⟩ := formatted_blankStore_creatable
  exact (rebuild_unfragmented _ sane.mounted front _ creatable []).2.1 _ (List.mem_cons_of_mem _ (List.mem_singleton_self _))

end MyShell.FS
