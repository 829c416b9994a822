import MyShell.FS.Fragmentation
import MyShell.FS.Names

/-! `find_file` of fsutil2.c: it opens each entry of the root directory by its name and
searches the text of the file, which ends at the first zero byte. -/
namespace MyShell.FS
open BlockProgram PointerForest Bitmap

/-- Whether `strstr` finds the pattern. -/
def strstr (text pattern : CString) : Bool := text.chars.tails.any fun rest => pattern.chars.isPrefixOf rest

/-- The text in the buffer of a file, which has one byte more than the file is long. -/
def fileText (name : CString) : FsM (Option CString) := do
  let file ← filesysOpen name
  match file with
  | none => pure none
  | some file => do
    let fileSize ← fileLength file
    let bytes ← fileRead file fileSize
    fileClose (some file)
    pure (some (CString.ofBuffer (bytes ++ [0])))

/-- The body of the loop, with the line that it prints. -/
def searchFile (pattern name : CString) : FsM (List CString) := do
  let text ← fileText name
  return if text.any fun text => strstr text pattern then [name] else []

/-- The inode of the directory was not freed. -/
def dirAlive (dir : Nat) : FsM Bool := do
  let h ← getHandles
  return (h.inodes.cell (h.dir dir).inode).isSome

/-- The loop over the directory. What a pass does once the inode of the directory was freed
is not defined, and `none` stands for that. -/
def searchFiles (pattern : CString) (dir : Nat) : Nat → FsM (Option (List CString))
  | 0 => pure (some [])
  | fuel+1 => do
    let alive ← dirAlive dir
    if alive then do
      let name ← dirReaddir dir
      match name with
      | none => pure (some [])
      | some name => do
        let printed ← searchFile pattern (CString.ofBuffer name)
        let rest ← searchFiles pattern dir fuel
        pure (rest.map fun rest => printed ++ rest)
    else pure none

/-- The lines that `find_file` prints. Each pass but the last moves on by an entry at least. -/
def findFile (pattern : CString) : FsM (Option (List CString)) := do
  let dir ← dirOpenRoot
  match dir with
  | none => pure (some [])
  | some dir => do
    let h ← getHandles
    let length ← inodeLength (h.dir dir).inode
    let printed ← searchFiles pattern dir (length.toNat + 1)
    match printed with
    | none => pure none
    | some printed => do
      dirClose (some dir)
      pure (some printed)

/-- The text of the file at the entry `i`, which its first zero byte ends. -/
def textAt (img : Nat → Sector) (s : Volume) (i : Nat) : CString :=
  CString.ofBuffer (contents (img (entrySector s i)) s.device)

/-- The names for which `dir_lookup` does not look among the entries. -/
def DotName (name : CString) : Prop := name = dotString ∨ name = dotDotString

instance (name : CString) : Decidable (DotName name) := inferInstanceAs (Decidable (_ ∨ _))

/-- What a loop over these entries prints. -/
def printedFrom (img : Nat → Sector) (s : Volume) (pattern : CString) (entries : List Nat) : Option (List CString) :=
  if entries.any fun i => DotName (nameAt (rootArray s) i) then none
  else some ((entries.filter fun i => strstr (textAt img s i) pattern).map (nameAt (rootArray s)))

section
variable {text pattern : CString}

theorem strstr_iff : strstr text pattern = true ↔ pattern.chars <:+: text.chars := by
  unfold strstr
  rw [List.any_eq_true,List.infix_iff_prefix_suffix]
  refine exists_congr fun rest => ?_
  rw [List.mem_tails,List.isPrefixOf_iff_prefix,and_comm]

theorem ofBuffer_takeWhile (bytes : List Byte) : (CString.ofBuffer bytes).chars = bytes.takeWhile (· ≠ 0) := rfl

theorem takeWhile_terminated (bytes : List Byte) :
    (bytes ++ [0]).takeWhile (fun b => decide (b ≠ 0)) = bytes.takeWhile fun b => decide (b ≠ 0) := by
  rw [List.takeWhile_append]
  split
  · rename_i whole
    rw [(List.takeWhile_prefix _).eq_of_length whole]
    exact List.append_nil bytes
  · rfl

theorem ofBuffer_terminated (bytes : List Byte) : CString.ofBuffer (bytes ++ [0]) = CString.ofBuffer bytes :=
  CString.ext (takeWhile_terminated bytes)

end

section
variable {img : Nat → Sector} {s t : Volume} {h : Handles} {dir p q i j k : Nat} {openCnt : Int} {name : CString} {c : Inode}

theorem arrayRead_whole (d : Sector) (mem : Nat → Sector) :
    arrayRead (contents d mem) (0 : Int).toNat d.length.toNat = contents d mem := by
  unfold arrayRead
  rw [Int.toNat_zero,List.drop_zero,← length_contents d mem,List.take_length]

/-- The text of a file that was opened on the inode `q`, which is closed afterwards. -/
theorem exec_fileText {u v w : Volume} (filled : strlen name ≠ 0) (named : strlen (lastName name) > 0)
    (opening : dirOpenRoot.exec s = (some dir,u)) (lookup : (dirLookup dir (lastName name)).exec u = (some q,v))
    (closing : (dirClose (some dir)).exec v = ((),w)) (cell : w.vars.handles.inodes.cell q = some c) (once : c.openCnt = 1)
    (kept : c.removed = false) (backed : Backed c.data w.device) :
    ∃ h, (fileText name).exec s = (some (CString.ofBuffer (contents c.data w.device)),withHandles w h) ∧
      (w.vars.handles.closeInode q).Same h := by
  have inode : w.vars.handles.inode q = c := ObjectHeap.deref_of_cell _ _ _ cell
  have opened := exec_filesysOpen_some filled named opening lookup closing (by rw [inode,kept])
  have file := ObjectHeap.alloc_cell_next w.vars.handles.files (⟨q,0,false⟩ : File)
  have other := ObjectHeap.SameBut.alloc w.vars.handles.files (⟨q,0,false⟩ : File)
  have absent := w.vars.handles.files.next_cell
  generalize w.vars.handles.files.next = f at opened file other absent
  generalize w.vars.handles.files.alloc (⟨q,0,false⟩ : File) = files at opened file other
  generalize now : withHandles w {w.vars.handles with files := files} = x at opened
  have device : x.device = w.device := by rw [← now]; rfl
  have held : x.vars.handles.files.cell f = some ⟨q,0,false⟩ := by rw [← now]; exact file
  have same : x.vars.handles.inodes = w.vars.handles.inodes := by rw [← now]; rfl
  have data : (x.vars.handles.inode q).data = c.data := by rw [Handles.inode,same,← inode,Handles.inode]
  have length : (fileLength f).exec x = (c.data.length,x) := by
    unfold fileLength inodeLength
    simp only [Task.exec_bind,exec_getHandles,Task.exec_pure,Handles.file,ObjectHeap.deref_of_cell _ _ _ held,data]
  have reading := (exec_fileRead_backed (device.symm ▸ backed) held data (Int.le_refl 0) (by decide) c.data.length).1
  rw [arrayRead_whole,device] at reading
  generalize contents c.data w.device = bytes at reading
  have moved : (x.vars.handles.setPos f (0 + bytes.length)).files.cell f = some ⟨q,0 + bytes.length,false⟩ := by
    refine (ObjectHeap.modify_cell _ _ _ _).trans ?_
    rw [if_pos rfl,held]
    rfl
  have ended := exec_fileClose (s := withHandles x (x.vars.handles.setPos f (0 + bytes.length))) moved
    (c := c) ((congrArg (fun heap => heap.cell q) same).trans cell) once kept
  refine ⟨{(x.vars.handles.setPos f (0 + bytes.length)).closeInode q with
    files := (x.vars.handles.setPos f (0 + bytes.length)).files.free f},?_,?_⟩
  · unfold fileText
    rw [Task.exec_bind,opened]
    simp only
    rw [Task.exec_bind,length]
    simp only
    rw [Task.exec_bind,reading]
    simp only
    rw [Task.exec_bind,ended]
    simp only
    rw [Task.exec_pure,ofBuffer_terminated,← now]
    rfl
  · subst now
    exact ⟨rfl,rfl,(other.modify _).free absent,rfl,rfl,rfl,rfl⟩

/-- In a loop over the root directory, `dir_open_root` gives the directory of the loop. -/
theorem Walk.reopen (walk : Walk img s (fun h => h.cwd = some dir) dir p openCnt k j t) :
    ∃ u, dirOpenRoot.exec t = (some dir,u) ∧ Walk img s (fun h => h.cwd = some dir) dir p (openCnt + 1) k j u := by
  refine ⟨FS.withHandles t {t.vars.handles with dirs := t.vars.handles.dirs.modify dir fun d =>
    {d with openCnt := d.openCnt + 1}},?_,withHandles_of_same walk.same _,⟨?_,walk.handle.root,walk.handle.opened⟩,
    ⟨walk.mirrors.opened,walk.mirrors.closed,walk.mirrors.single⟩,walk.behind,walk.more⟩
  · unfold dirOpenRoot
    simp only [Task.exec_bind,exec_getHandles,walk.more,exec_modifyDir,Task.exec_pure]
    rfl
  · rw [withHandles_vars,ObjectHeap.modify_cell,if_pos rfl,walk.handle.dir,Option.map_some]

/-- A close that is not the last one. -/
theorem Walk.reclose (walk : Walk img s (fun h => h.cwd = some dir) dir p (openCnt + 1) k j t) (more : 0 < openCnt) :
    ∃ u, (dirClose (some dir)).exec t = ((),u) ∧ Walk img s (fun h => h.cwd = some dir) dir p openCnt k j u ∧
      u.vars.handles.inodes = t.vars.handles.inodes := by
  have closed := ObjectHeap.deref_modify t.vars.handles.dirs dir (fun d => {d with openCnt := d.openCnt - 1}) _ walk.handle.dir
  refine ⟨FS.withHandles t {t.vars.handles with dirs := t.vars.handles.dirs.modify dir fun d =>
    {d with openCnt := d.openCnt - 1}},?_,⟨withHandles_of_same walk.same _,⟨?_,walk.handle.root,walk.handle.opened⟩,
    ⟨walk.mirrors.opened,walk.mirrors.closed,walk.mirrors.single⟩,walk.behind,walk.more⟩,rfl⟩
  · have some : ¬openCnt + 1 - 1 = 0 := by omega
    unfold dirClose
    simp only [Task.exec_bind,exec_modifyDir,exec_getHandles,Handles.dir,closed,if_neg some,Task.exec_pure]
    rfl
  · rw [withHandles_vars,ObjectHeap.modify_cell,if_pos rfl,walk.handle.dir,Option.map_some,Int.add_sub_cancel]

theorem closeInode_sector (same : (t.vars.handles.closeInode q).Same h) (x : Nat) :
    inodeSector (FS.withHandles t h) x = if x = q then freeMapSector else inodeSector t x := by
  unfold inodeSector
  rw [withHandles_vars,same.inode_eq,Handles.inode,ObjectHeap.deref,closeInode_cell]
  split <;> rfl

/-- Closing the inode of the entry of the pass. -/
theorem Walk.closeEntry (walk : Walk img s (fun h => h.cwd = some dir) dir p openCnt i (i+1) t) (listing : Listing img s)
    (listed : ListedAt (rootArray s) i) (sector : inodeSector t q = entrySector s i)
    (same : (t.vars.handles.closeInode q).Same h) :
    Walk img s (fun h => h.cwd = some dir) dir p openCnt (i+1) (i+1) (FS.withHandles t h) := by
  have other : p ≠ q := by
    intro here
    rw [← here,walk.handle.inode.1] at sector
    exact listing.apart i listed sector.symm
  have inode (x : Nat) (ne : x ≠ q) : h.inode x = t.vars.handles.inode x := by
    rw [same.inode_eq,Handles.inode,ObjectHeap.deref,closeInode_cell,if_neg ne]
    rfl
  have nonzero (x : Nat) (ahead : Ahead (rootArray t) (i+1) (inodeSector (FS.withHandles t h) x)) : x ≠ q := by
    intro here
    rw [closeInode_sector same,if_pos here,walk.array] at ahead
    exact listing.nonzero _ (ahead_owns ahead) rfl
  have before (x : Nat) (member : x ∈ h.openInodes) : x ∈ t.vars.handles.openInodes := by
    rw [same.openInodes] at member
    exact List.mem_of_mem_erase member
  refine ⟨withHandles_of_same walk.same h,⟨?_,?_,?_⟩,⟨fun x member ahead => ?_,fun x ahead unopened => ?_,
    fun x first y second left right => ?_⟩,walk.behind,same.cwd.trans walk.more⟩
  · rw [withHandles_vars,same.dirs]
    exact walk.handle.dir
  · obtain ⟨c,cell,data⟩ := walk.handle.root
    refine ⟨c,?_,data⟩
    rw [withHandles_vars,same.inodes,closeInode_cell,if_neg other]
    exact cell
  · rw [withHandles_vars,same.openInodes]
    exact (List.mem_erase_of_ne other).mpr walk.handle.opened
  · have ne := nonzero x ahead
    have place := closeInode_sector same x
    rw [if_neg ne] at place
    rw [place] at ahead ⊢
    rw [withHandles_vars,inode x ne]
    exact walk.mirrors.opened x (before x member) (ahead_mono (Nat.le_succ i) ahead)
  · refine walk.mirrors.closed x (ahead_mono (Nat.le_succ i) ahead) fun y member here => ?_
    by_cases closed : y = q
    · -- the entries behind this one are of other files
      rw [closed] at here
      have own : x = entrySector s i := here.symm.trans sector
      rcases ahead with root | ⟨k,behind,other,sector'⟩
      · exact listing.apart i listed (own.symm.trans root)
      · rw [show rootArray (FS.withHandles t h) = rootArray s from walk.array] at other sector'
        exact absurd (listing.root.distinct k i other listed (sector'.trans own)) (by omega)
    · refine unopened y ?_ ?_
      · rw [withHandles_vars,same.openInodes]
        exact (List.mem_erase_of_ne closed).mpr member
      · rw [withHandles_vars,inode y closed]
        exact here
  · have root (z : Nat) (here : inodeSector (FS.withHandles t h) z = rootDirSector) : inodeSector t z = rootDirSector := by
      rw [closeInode_sector same] at here
      split at here
      · contradiction
      · exact here
    exact walk.mirrors.single x (before x first) y (before y second) (root x left) (root y right)

/-- The name of an entry in use, as the loop gets it. -/
theorem exec_dirReaddir (handle : RootHandle img s dir p j openCnt) (listing : Listing img s) :
    (dirReaddir dir).exec s = ((findEntry (rootArray s) (fun e => e.inUse) j).map fun i => (entryAt (rootArray s) i).name,
      FS.withHandles s (s.vars.handles.moveDir dir (nextEntry (rootArray s) j))) := by
  unfold dirReaddir
  rw [Task.exec_bind,exec_dirReaddirEntry handle listing]
  simp only
  rw [Task.exec_pure,Option.map_map]
  rfl

theorem RootHandle.alive (handle : RootHandle img s dir p j openCnt) : (dirAlive dir).exec s = (true,s) := by
  obtain ⟨c,cell,-⟩ := handle.root
  unfold dirAlive
  rw [Task.exec_bind,exec_getHandles]
  simp only
  rw [Task.exec_pure,handle.dir_eq,cell]
  rfl

/-- The text that a pass of the loop gets for an entry with a name of its own. -/
theorem Walk.fileText (walk : Walk img s (fun h => h.cwd = some dir) dir p openCnt i (i+1) t) (more : 0 < openCnt)
    (listing : Listing img s) (named : NamedRoot (rootArray s)) (listed : ListedAt (rootArray s) i)
    (plain : ¬DotName (nameAt (rootArray s) i)) :
    ∃ u, (FS.fileText (nameAt (rootArray s) i)).exec t = (some (textAt img s i),u) ∧
      Walk img s (fun h => h.cwd = some dir) dir p openCnt (i+1) (i+1) u := by
  have proper := named.proper i listed
  have last := lastName_slashFree proper.plain
  obtain ⟨u,opening,opened⟩ := walk.reopen
  have ahead := ahead_listed listed (Nat.le_refl i)
  rw [← opened.array] at ahead
  obtain ⟨q,h,c,entry,mirrors,extends',cell,sector,data,kept,once,-⟩ := opened.mirrors.open (opened.listing listing) ahead
  rw [opened.array] at entry sector data
  have array : contents (img rootDirSector) u.device = rootArray s := by
    rw [opened.device,listing.image]
    rfl
  have rooted : Backed (img rootDirSector) u.device := opened.device.symm ▸ listing.backed _ owns_root
  have lookup := exec_dirLookup_backed (s := u) rooted opened.handle.inode.2 (congrArg Dir.inode opened.handle.dir_eq)
    (fun same => plain (Or.inl same)) (fun same => plain (Or.inr same))
  rw [array,named.found listed] at lookup
  simp only at lookup
  rw [entry] at lookup
  have found : Walk img s (fun h => h.cwd = some dir) dir p (openCnt + 1) i (i+1) (FS.withHandles u h) :=
    ⟨withHandles_of_same opened.same h,opened.handle.extends extends',mirrors,opened.behind,extends'.cwd.trans opened.more⟩
  obtain ⟨w,closing,closed,inodes⟩ := found.reclose more
  have cell' : w.vars.handles.inodes.cell q = some c := by
    rw [inodes]
    exact cell
  have backed : Backed c.data w.device := by
    rw [data,closed.device]
    exact listing.backed _ (owns_listed listed)
  obtain ⟨h',text,same⟩ := exec_fileText (Nat.pos_iff_ne_zero.mp proper.some) (by rw [last]; exact proper.some) opening
    (by rw [last]; exact lookup) closing cell' once kept backed
  refine ⟨_,text.trans ?_,closed.closeEntry listing listed ?_ same⟩
  · rw [data,closed.device]
    rfl
  · refine Eq.trans ?_ sector
    exact congrArg Inode.sector (ObjectHeap.deref_of_cell _ _ _ cell')

/-- The root directory is found among the open inodes. -/
theorem RootHandle.reopen (handle : RootHandle img s dir p j openCnt) (mirrors : Mirrors img k s) :
    (inodeOpen rootDirSector).exec s = (p,s) := by
  have search : (s.vars.handles.openInodes.find? fun q => (s.vars.handles.inode q).sector == rootDirSector) = some p := by
    cases found : s.vars.handles.openInodes.find? fun q => (s.vars.handles.inode q).sector == rootDirSector with
    | none =>
      have missed := List.find?_eq_none.mp found p handle.opened
      exact absurd (beq_iff_eq.mpr handle.inode.1) missed
    | some q =>
      have key := List.find?_some found
      have sector : inodeSector s q = rootDirSector := beq_iff_eq.mp key
      rw [mirrors.single q (List.mem_of_find?_eq_some found) p handle.opened sector handle.inode.1]
  unfold inodeOpen
  rw [Task.exec_bind,exec_getHandles]
  simp only
  rw [search]
  rfl

/-- For `.` and `..` the root directory gives its own inode. -/
theorem Walk.dotLookup (walk : Walk img s (fun h => h.cwd = some dir) dir p openCnt k j t) (listing : Listing img s)
    (named : NamedRoot (rootArray s)) (dot : DotName name) : (dirLookup dir name).exec t = (some p,t) := by
  have self : (dirGetInode dir).exec t = (p,t) := by
    unfold dirGetInode
    rw [Task.exec_bind,exec_getHandles]
    simp only
    rw [Task.exec_pure,walk.handle.dir_eq]
  unfold dirLookup
  rw [Task.exec_bind,self]
  simp only
  rcases dot with rfl | rfl
  · rw [if_pos rfl]
    rfl
  · have other : ¬dotDotString = dotString := by decide
    have rooted : Backed (img rootDirSector) t.device := walk.device.symm ▸ listing.backed _ owns_root
    have reading := inodeReadAt_backed rooted p walk.handle.inode.2 36 0
    have array : contents (img rootDirSector) t.device = rootArray s := by
      rw [walk.device,listing.image]
      rfl
    have parent : (DirEntry.ofBytes (arrayRead (rootArray s) 0 36)).inodeSector = rootDirSector := named.parent
    rw [array] at reading
    rw [if_neg other,if_pos rfl,Task.exec_bind]
    rw [show (inodeReadAt p (sizeofDirEntry : Nat) 0).exec t = _ from reading]
    simp only
    rw [parent,Task.exec_bind,walk.handle.reopen walk.mirrors]
    rfl

/-- A pass for an entry of that name closes the inode of the directory. -/
theorem Walk.freed (walk : Walk img s (fun h => h.cwd = some dir) dir p openCnt k j t) (more : 0 < openCnt)
    (listing : Listing img s) (named : NamedRoot (rootArray s)) (proper : ProperName name) (dot : DotName name) :
    ∃ text u, (FS.fileText name).exec t = (some text,u) ∧ (dirAlive dir).exec u = (false,u) := by
  have last := lastName_slashFree proper.plain
  obtain ⟨u,opening,opened⟩ := walk.reopen
  have lookup := opened.dotLookup listing named dot
  obtain ⟨w,closing,closed,inodes⟩ := opened.reclose more
  obtain ⟨c,cell,sector,data,kept,once⟩ := closed.handle.root
  have backed : Backed c.data w.device := by
    rw [data,closed.device]
    exact listing.backed _ owns_root
  obtain ⟨h,text,same⟩ := exec_fileText (Nat.pos_iff_ne_zero.mp proper.some) (by rw [last]; exact proper.some) opening
    (by rw [last]; exact lookup) closing cell once kept backed
  refine ⟨_,_,text,?_⟩
  have here : h.dir dir = ⟨p,(36*j : Nat),openCnt⟩ := (same.dir_eq dir).trans closed.handle.dir_eq
  have gone : h.inodes.cell p = none := by rw [same.inodes,closeInode_cell,if_pos rfl]
  unfold dirAlive
  rw [Task.exec_bind,exec_getHandles]
  simp only
  rw [Task.exec_pure,withHandles_vars,here,gone]
  rfl

theorem exec_searchFile {pattern text : CString} {u : Volume} (run : (FS.fileText name).exec t = (some text,u)) :
    (searchFile pattern name).exec t = (if strstr text pattern then [name] else [],u) := by
  unfold searchFile
  rw [Task.exec_bind,run]
  simp only
  rw [Task.exec_pure]
  rfl

/-- A loop whose directory is gone ends undefined. -/
theorem searchFiles_dead (pattern : CString) (fuel : Nat) (some : 0 < fuel) (dead : (dirAlive dir).exec t = (false,t)) :
    (searchFiles pattern dir fuel).exec t = (none,t) := by
  obtain ⟨n,rfl⟩ := Nat.exists_eq_add_of_le' some
  rw [searchFiles,Task.exec_bind,dead]
  rfl

theorem printedFrom_dot (pattern : CString) (entries : List Nat) (dot : DotName (nameAt (rootArray s) i)) :
    printedFrom img s pattern (i :: entries) = none := by
  unfold printedFrom
  rw [List.any_cons,decide_eq_true dot,Bool.true_or,if_pos rfl]

theorem printedFrom_cons (pattern : CString) (entries : List Nat) (plain : ¬DotName (nameAt (rootArray s) i)) :
    printedFrom img s pattern (i :: entries) = (printedFrom img s pattern entries).map fun rest =>
      (if strstr (textAt img s i) pattern then [nameAt (rootArray s) i] else []) ++ rest := by
  unfold printedFrom
  rw [List.any_cons,decide_eq_false plain,Bool.false_or,List.filter_cons]
  split
  · rfl
  · split <;> rfl

/-- The loop over the entries in use. -/
theorem exec_searchFiles (pattern : CString) (listing : Listing img s) (named : NamedRoot (rootArray s)) (more : 0 < openCnt)
    (fuel j : Nat) (t : Volume) (walk : Walk img s (fun h => h.cwd = some dir) dir p openCnt j j t)
    (enough : entryCount (rootArray s) < fuel + j) :
    ∃ u, (searchFiles pattern dir fuel).exec t = (printedFrom img s pattern (usedFrom (rootArray s) j),u) := by
  induction fuel generalizing j t with
  | zero =>
    rw [usedFrom_past (by omega)]
    exact ⟨t,rfl⟩
  | succ fuel ih =>
    have reading := exec_dirReaddir walk.handle (walk.listing listing)
    rw [walk.array] at reading
    rw [searchFiles,Task.exec_bind,walk.handle.alive]
    simp only [if_true]
    rw [Task.exec_bind,reading,usedFrom_find]
    cases found : findEntry (rootArray s) (fun e => e.inUse) j with
    | none => exact ⟨_,rfl⟩
    | some i =>
      obtain ⟨listed,low⟩ := listedAt_found walk.behind found
      have moved := walk.move (fun _ _ same => same) (i+1) (Nat.succ_pos i)
      have inside := listed.inside
      simp only [Option.map_some]
      rw [nextEntry_some found,Task.exec_bind]
      generalize FS.withHandles t (t.vars.handles.moveDir dir (i+1)) = u at moved
      have here : Walk img s (fun h => h.cwd = some dir) dir p openCnt i (i+1) u :=
        ⟨moved.same,moved.handle,moved.mirrors.mono low,moved.behind,moved.more⟩
      have name : CString.ofBuffer (entryAt (rootArray s) i).name = nameAt (rootArray s) i := rfl
      rw [name]
      by_cases dot : DotName (nameAt (rootArray s) i)
      · obtain ⟨text,v,run,dead⟩ := here.freed more listing named (named.proper i listed) dot
        rw [exec_searchFile run,printedFrom_dot pattern _ dot]
        simp only
        rw [Task.exec_bind,searchFiles_dead pattern fuel (by omega) dead]
        exact ⟨v,rfl⟩
      · obtain ⟨v,run,after⟩ := here.fileText more listing named listed dot
        obtain ⟨w,rest⟩ := ih (i+1) v after (by omega)
        rw [exec_searchFile run,printedFrom_cons pattern _ dot]
        simp only
        rw [Task.exec_bind,rest]
        exact ⟨w,rfl⟩

/-- What `find_file` prints, from its starting entry on. -/
theorem FileState.findFile (state : FileState img s) (named : NamedRoot (rootArray s)) (pattern : CString) :
    ((FS.findFile pattern).exec s).1 = printedFrom img s pattern (usedFrom (rootArray s) (startEntry s)) := by
  obtain ⟨dir,p,openCnt,h,opening,opened⟩ := state.opening
  have more : 0 < openCnt := by
    rcases opened.count with ⟨-,one⟩ | ⟨-,many⟩ <;> omega
  have start : Walk img s (fun h => h.cwd = some dir) dir p openCnt (startEntry s) (startEntry s) (FS.withHandles s h) :=
    ⟨rfl,opened.handle,opened.mirrors.mono opened.start,opened.start,opened.cwd⟩
  obtain ⟨u,run⟩ := exec_searchFiles pattern state.listing named more _ _ _ start (state.listing.enough _ opened.start)
  unfold FS.findFile
  rw [Task.exec_bind,opening]
  simp only
  rw [Task.exec_bind,exec_getHandles]
  simp only
  rw [Task.exec_bind,opened.length]
  simp only
  rw [Task.exec_bind,run]
  cases printedFrom img s pattern (usedFrom (rootArray s) (startEntry s)) with
  | none => rfl
  | some printed =>
    simp only
    rw [Task.exec_bind,Task.exec_pure]

end

/-- The file at the entry `i` has the pattern among all its bytes. -/
def HasPattern (img : Nat → Sector) (s : Volume) (pattern : CString) (i : Nat) : Prop :=
  pattern.chars <:+: contents (img (entrySector s i)) s.device

/-- The lines are the names of the regular files that have the pattern, each once. -/
def PrintsExactly (img : Nat → Sector) (s : Volume) (pattern : CString) (result : Option (List CString)) : Prop :=
  ∃ printed, result = some printed ∧ printed.Nodup ∧
    ∀ name, name ∈ printed ↔ ∃ i, RegularAt img s i ∧ HasPattern img s pattern i ∧ nameAt (rootArray s) i = name

/-- The regular files that have the pattern have it in front of their first zero byte and are not in front
of the position of the root directory. From there on no directory has it in front of its first
zero byte, and no entry is named `.` or `..`. -/
structure Searchable (img : Nat → Sector) (s : Volume) (pattern : CString) : Prop where
  files : ∀ i, RegularAt img s i → HasPattern img s pattern i →
    startEntry s ≤ i ∧ pattern.chars <:+: (contents (img (entrySector s i)) s.device).takeWhile (· ≠ 0)
  directories : ∀ i, ListedAt (rootArray s) i → startEntry s ≤ i → (img (entrySector s i)).isDir = true →
    ¬pattern.chars <:+: (contents (img (entrySector s i)) s.device).takeWhile (· ≠ 0)
  plain : ∀ i, ListedAt (rootArray s) i → startEntry s ≤ i → ¬DotName (nameAt (rootArray s) i)

section
variable {img : Nat → Sector} {s : Volume} {pattern : CString} {i : Nat}

theorem mem_printed (start : 1 ≤ startEntry s) (name : CString) :
    name ∈ ((usedFrom (rootArray s) (startEntry s)).filter fun i => strstr (textAt img s i) pattern).map
        (nameAt (rootArray s)) ↔
      ∃ i, (ListedAt (rootArray s) i ∧ startEntry s ≤ i ∧
        pattern.chars <:+: (contents (img (entrySector s i)) s.device).takeWhile (· ≠ 0)) ∧ nameAt (rootArray s) i = name := by
  rw [List.mem_map]
  refine exists_congr fun i => and_congr_left fun _ => ?_
  rw [List.mem_filter,strstr_iff,mem_usedFrom,textAt,ofBuffer_takeWhile]
  generalize (contents (img (entrySector s i)) s.device).takeWhile (· ≠ 0) = text
  constructor
  · rintro ⟨⟨low,inside,used⟩,found⟩
    exact ⟨⟨start.trans low,inside,used⟩,low,found⟩
  · rintro ⟨listed,low,found⟩
    exact ⟨⟨low,listed.inside,listed.used⟩,found⟩

theorem nodup_usedFrom (a : List Byte) (j : Nat) : (usedFrom a j).Nodup := by
  unfold usedFrom
  exact List.Nodup.filter _ List.nodup_range'

/-- Different entries have different names. -/
theorem NamedRoot.nodup (named : NamedRoot (rootArray s)) (start : 1 ≤ startEntry s) (test : Nat → Bool) :
    (((usedFrom (rootArray s) (startEntry s)).filter test).map (nameAt (rootArray s))).Nodup := by
  have listed (i : Nat) (member : i ∈ (usedFrom (rootArray s) (startEntry s)).filter test) : ListedAt (rootArray s) i := by
    obtain ⟨low,inside,used⟩ := mem_usedFrom.mp (List.mem_filter.mp member).1
    exact ⟨start.trans low,inside,used⟩
  refine List.Nodup.map_on (fun i first j second same => ?_) ((nodup_usedFrom _ _).filter _)
  exact named.distinct i j (listed i first) (listed j second) same

theorem printedFrom_some {entries : List Nat} {printed : List CString}
    (result : printedFrom img s pattern entries = some printed) :
    (∀ i ∈ entries, ¬DotName (nameAt (rootArray s) i)) ∧
      printed = (entries.filter fun i => strstr (textAt img s i) pattern).map (nameAt (rootArray s)) := by
  unfold printedFrom at result
  split at result
  · exact absurd result (Option.some_ne_none _).symm
  · rename_i plain
    refine ⟨fun i member dot => plain (List.any_eq_true.mpr ⟨i,member,decide_eq_true dot⟩),?_⟩
    exact (Option.some.inj result).symm

theorem printedFrom_plain {entries : List Nat} (plain : ∀ i ∈ entries, ¬DotName (nameAt (rootArray s) i)) :
    printedFrom img s pattern entries =
      some ((entries.filter fun i => strstr (textAt img s i) pattern).map (nameAt (rootArray s))) := by
  unfold printedFrom
  refine if_neg fun dot => ?_
  obtain ⟨i,member,found⟩ := List.any_eq_true.mp dot
  exact plain i member (of_decide_eq_true found)

/-- The lines are right exactly if the root directory can be searched this way. -/
theorem FileState.prints_iff (state : FileState img s) (named : NamedRoot (rootArray s)) (pattern : CString) :
    PrintsExactly img s pattern ((FS.findFile pattern).exec s).1 ↔ Searchable img s pattern := by
  rw [state.findFile named pattern]
  have start := state.start
  have from_start (i : Nat) (listed : ListedAt (rootArray s) i) (low : startEntry s ≤ i) :
      i ∈ usedFrom (rootArray s) (startEntry s) := mem_usedFrom.mpr ⟨low,listed.inside,listed.used⟩
  constructor
  · rintro ⟨printed,result,-,names⟩
    obtain ⟨plain,rfl⟩ := printedFrom_some result
    simp only [mem_printed start] at names
    refine ⟨fun i regular found => ?_,fun i listed low directory found => ?_,fun i listed low => plain i (from_start i listed low)⟩
    · obtain ⟨k,⟨listed,low,text⟩,same⟩ := (names _).mpr ⟨i,regular,found,rfl⟩
      obtain rfl := named.distinct k i listed regular.1 same
      exact ⟨low,text⟩
    · obtain ⟨k,regular,-,same⟩ := (names _).mp ⟨i,⟨listed,low,found⟩,rfl⟩
      obtain rfl := named.distinct k i regular.1 listed same
      exact Bool.false_ne_true (regular.2.symm.trans directory)
  · intro searchable
    refine ⟨_,printedFrom_plain fun i member => ?_,named.nodup start _,fun name => ?_⟩
    · obtain ⟨low,inside,used⟩ := mem_usedFrom.mp member
      exact searchable.plain i ⟨Nat.le_trans start low,inside,used⟩ low
    · rw [mem_printed start]
      constructor
      · rintro ⟨i,⟨listed,low,text⟩,here⟩
        have file : (img (entrySector s i)).isDir = false :=
          Bool.eq_false_of_not_eq_true fun directory => searchable.directories i listed low directory text
        exact ⟨i,⟨listed,file⟩,text.trans (List.takeWhile_prefix _).isInfix,here⟩
      · rintro ⟨i,regular,found,here⟩
        obtain ⟨low,text⟩ := searchable.files i regular found
        exact ⟨i,⟨regular.1,low,text⟩,here⟩

end

section
variable {reserved dirty : Nat → Prop} {s : Volume} {a : List Byte}

/-- A byte behind a gap is in the file, but not in its text. -/
theorem arrayWrite_hidden (n : Nat) : nameA.chars <:+: arrayWrite (List.replicate n 0) [97] 1 1 ∧
    (arrayWrite (List.replicate n 0) [97] 1 1).takeWhile (· ≠ 0) = [] := by
  obtain ⟨m,length⟩ : ∃ m, max n (1 + 1) = m + 2 := Nat.exists_eq_add_of_le' (Nat.le_max_right _ _)
  have first : (List.replicate n (0 : Byte)).getD 0 0 = 0 := by
    cases n <;> rfl
  have split : ∃ rest, arrayWrite (List.replicate n 0) [97] 1 1 = 0 :: 97 :: rest := by
    unfold arrayWrite
    rw [List.length_replicate,length,List.range_succ_eq_map,List.range_succ_eq_map,List.map_cons,List.map_map,
      List.map_cons,if_neg (by decide),first]
    exact ⟨_,rfl⟩
  obtain ⟨rest,split⟩ := split
  rw [split]
  exact ⟨⟨[0],rest,rfl⟩,rfl⟩

/-- A file of zeros with a byte written behind the first one. -/
theorem Mounted.hide (mounted : Mounted reserved dirty s) (leak : leakAt s nameA 5000 = none) :
    ∃ v x u, (filesysCreate [] nameA 5000 false).exec s = (true,v) ∧ ListedSector v x ∧
      (writeSector x [97] 1 1).exec v = (1,u) ∧ Mounted reserved dirty u ∧
      ∃ i, RegularAt u.device u i ∧ HasPattern u.device u nameA i ∧
        (contents (u.device (entrySector u i)) u.device).takeWhile (· ≠ 0) = [] := by
  obtain ⟨v,same,outcome⟩ := filesysCreate_spec mounted.layout mounted.ready mounted.origin owns_root
    mounted.idle.closed [] nameA (by decide : (-2147483648 : Int) ≤ 5000) (by decide)
  rw [splitPathFilename_slashFree nameA (by decide),leak] at outcome
  obtain ⟨run,x,made⟩ := outcome
  have created := (mounted.made same made).1
  obtain ⟨i,-,listed,sector⟩ := listed_of_sectorOf (made.named mounted.root (createLeak_good _ leak).2)
  have inside : ListedSector v x := ⟨i,listed,sector⟩
  obtain ⟨owns,apart⟩ := created.inside inside
  obtain ⟨done,u,write,same',stored⟩ := writeSector_spec created.layout created.ready created.origin owns created.idle.live
    (created.idle.unopened (created.nonzero owns)) [97] 1 1 (by decide) (by decide) (by decide)
  have room : need (v.device x) v.device (1 + 1) = 0 := by
    unfold need
    rw [made.length]
    rfl
  have success : done = true := by
    by_contra failed
    have short := ((stored.counts (by decide)).short (Bool.eq_false_of_not_eq_true failed)).2
    omega
  have limit : 1 + 1 ≤ 8517120 := by omega
  rw [if_pos ⟨success,limit⟩] at write
  obtain ⟨after,array⟩ := created.stored same' apart stored
  have bytes := stored.written success limit
  rw [made.zeros] at bytes
  have listed' : ListedAt (rootArray u) i := by
    rw [array]
    exact listed
  have here : entrySector u i = x := by
    unfold entrySector
    rw [array]
    exact sector
  obtain ⟨found,text⟩ := arrayWrite_hidden (5000 : Int).toNat
  refine ⟨v,x,u,run,inside,write,after,i,⟨listed',after.regular i listed'⟩,?_,?_⟩
  · unfold HasPattern
    rw [here,bytes]
    exact found
  · rw [here,bytes]
    exact text

/-- The same run on the device behind its cache. -/
theorem Sane.hide {s : FileSys} (sane : Sane reserved dirty s) (named : NamedRoot (rootArray (volume s)))
    (leak : leakAt (volume s) nameA 5000 = none) : ∃ t, Reached s t ∧ FileState (volume t).device (volume t) ∧
      NamedRoot (rootArray (volume t)) ∧ ¬PrintsExactly (volume t).device (volume t) nameA ((findFile nameA).exec t).1 := by
  obtain ⟨v,x,u,run,listed,write,after,i,regular,found,text⟩ := sane.mounted.hide leak
  have first : volume ((FileOp.create [] nameA 5000).task.exec s).2 = v := by
    rw [exec_volume] at run
    rw [exec_create_task]
    exact (Prod.mk.inj run).2
  have created : Reached s _ := .step (.create [] nameA 5000) .start ⟨by decide,by decide⟩
  generalize ((FileOp.create [] nameA 5000).task.exec s).2 = r at first created
  subst first
  have second : volume ((FileOp.write x [97] 1 1).task.exec r).2 = u := by
    rw [exec_volume] at write
    rw [exec_writeSector_task]
    exact (Prod.mk.inj write).2
  have reached : Reached s _ := .step (.write x [97] 1 1) created ⟨listed,by decide,by decide,by decide,by decide⟩
  generalize ((FileOp.write x [97] 1 1).task.exec r).2 = t at second reached
  subst second
  have unique := sane.named named reached
  have exact := after.fileState.prints_iff unique nameA
  rw [exec_volume] at exact
  refine ⟨t,reached,after.fileState,unique,fun prints => ?_⟩
  have text' := ((exact.mp prints).files i regular found).2
  rw [text,List.infix_nil] at text'
  exact absurd text' (by decide)

end

/-- `find_file` prints the names of the files that contain the pattern exactly if it finds them by
what is in front of their first zero byte. -/
theorem find_file_iff (s : FileSys) (img : Nat → Sector) (state : FileState img (volume s))
    (named : NamedRoot (rootArray (volume s))) (pattern : CString) :
    PrintsExactly img (volume s) pattern ((findFile pattern).exec s).1 ↔ Searchable img (volume s) pattern := by
  have exact := state.prints_iff named pattern
  rw [exec_volume] at exact
  exact exact

theorem find_file_blankStore :
    PrintsExactly (volume (formatted blankStore)).device (volume (formatted blankStore)) nameA
        ((findFile nameA).exec (formatted blankStore)).1 ↔
      Searchable (volume (formatted blankStore)).device (volume (formatted blankStore)) nameA := by
  obtain ⟨reserved,dirty,sane⟩ := formatted_sane blankStore blankStore_formattable
  exact find_file_iff _ _ sane.mounted.fileState (formatted_named blankStore blankStore_formattable .start) nameA

/-- A file of a zero byte, the pattern and more zero bytes. -/
theorem pattern_behind_zero : ∃ s, Reached (formatted blankStore) s ∧ FileState (volume s).device (volume s) ∧
    NamedRoot (rootArray (volume s)) ∧
    ¬PrintsExactly (volume s).device (volume s) nameA ((findFile nameA).exec s).1 := by
  obtain ⟨reserved,dirty,sane⟩ := formatted_sane blankStore blankStore_formattable
  exact sane.hide (formatted_named blankStore blankStore_formattable .start) formatted_blankStore_leak

end MyShell.FS
