import MyShell.FS.Session
import MyShell.FS.Shell

/-! `filesys_open` of a file that is not open yet: it adds one inode and one file to the
objects in memory, and closing the file takes both away again. -/
namespace MyShell.FS
open BlockProgram PointerForest Bitmap

/-- The inode of the sector `x` is new at `p`, and the file on it at `f`. -/
structure NewFile (h h' : Handles) (f p x : Nat) (data : Sector) (pos : Int) : Prop where
  inodes : h'.inodes.cell = Function.update h.inodes.cell p (some (readInode x data))
  inode : h.inodes.cell p = none
  openInodes : h'.openInodes = p :: h.openInodes
  files : h'.files.cell = Function.update h.files.cell f (some ⟨p,pos,false⟩)
  file : h.files.cell f = none
  dirs : h'.dirs.cell = h.dirs.cell
  freeMapFile : h'.freeMapFile = h.freeMapFile
  cwd : h'.cwd = h.cwd
  fileTable : h'.fileTable = h.fileTable

/-- The handles after the file `f` moved to `pos`. -/
def Handles.setPos (h : Handles) (f : Nat) (pos : Int) : Handles :=
  {h with files := h.files.modify f fun c => {c with pos := pos}}

/-- The component of a path that is looked up in the root directory. -/
def lastName (path : CString) : CString := (splitPathFilename path).2

/-- The last component is the name of an entry. -/
structure NamesEntry (path : CString) : Prop where
  filled : strlen path ≠ 0
  some : strlen (lastName path) > 0
  dot : lastName path ≠ dotString
  dotDot : lastName path ≠ dotDotString

section
variable {reserved dirty owner : Nat → Prop} {img : Nat → Sector} {s t : Volume} {h : Handles} {x p q f dir : Nat}
  {name path : CString} {data : Sector} {pos : Int}

/-- `dir_lookup` of the name of an entry, up to the opening of its inode. -/
theorem exec_dirLookup_backed {d : Sector} (backed : Backed d s.device)
    (held : (s.vars.handles.inode p).data = d) (opened : (s.vars.handles.dir dir).inode = p) (dot : name ≠ dotString)
    (dotDot : name ≠ dotDotString) :
    (dirLookup dir name).exec s = match findName (contents d s.device) name with
      | none => (none,s)
      | some i => (some ((inodeOpen (entryAt (contents d s.device) i).inodeSector).exec s).1,
          ((inodeOpen (entryAt (contents d s.device) i).inodeSector).exec s).2) := by
  have search := lookup_backed backed held opened name
  have self : (dirGetInode dir).exec s = (p,s) := by rw [← opened]; rfl
  unfold dirLookup
  rw [Task.exec_bind,self]
  dsimp only
  rw [if_neg dot,if_neg dotDot,Task.exec_bind,search]
  cases findName (contents d s.device) name with
  | none => simp only [Option.map_none,Task.exec_pure]
  | some i => simp only [Option.map_some,Task.exec_bind,Task.exec_pure]

theorem exec_dirLookup (layout : Layout reserved owner img s) (owns : owner x)
    (held : (s.vars.handles.inode p).data = img x) (opened : (s.vars.handles.dir dir).inode = p) (dot : name ≠ dotString)
    (dotDot : name ≠ dotDotString) :
    (dirLookup dir name).exec s = match findName (contents (img x) s.device) name with
      | none => (none,s)
      | some i => (some ((inodeOpen (entryAt (contents (img x) s.device) i).inodeSector).exec s).1,
          ((inodeOpen (entryAt (contents (img x) s.device) i).inodeSector).exec s).2) :=
  exec_dirLookup_backed (layout.backed owns) held opened dot dotDot

/-- The root directory opened and then the inode of `x`. -/
def Handles.openBoth (h : Handles) (data : Sector) (x : Nat) (data' : Sector) : Handles :=
  (h.openRoot data).openInode x data'

theorem exec_dirClose_openBoth (s : Volume) (h : Handles) (data data' : Sector) (x : Nat)
    (handles : s.vars.handles = h.openBoth data x data') :
    (dirClose (some h.dirs.next)).exec s = ((),withHandles s ((h.openBoth data x data').closeDir h.dirs.next)) := by
  have dir : s.vars.handles.dirs.cell h.dirs.next =
      some {inode := h.inodes.next, pos := sizeofDirEntry, openCnt := 1} := by
    rw [handles]
    exact ObjectHeap.alloc_cell_next _ _
  have inode : s.vars.handles.inodes.cell h.inodes.next = some (readInode rootDirSector data) := by
    rw [handles]
    refine (ObjectHeap.alloc_cell _ _ _).trans ((if_neg (Nat.ne_of_lt (Nat.lt_succ_self _))).trans ?_)
    exact ObjectHeap.alloc_cell_next _ _
  rw [exec_dirClose_last dir rfl inode rfl rfl,handles]
  rfl

/-- The handles once a file was opened on the inode and the root directory is closed. -/
def Handles.openedFile (h : Handles) (data : Sector) (x : Nat) (data' : Sector) : Handles :=
  {(h.openBoth data x data').closeDir h.dirs.next with
    files := h.files.alloc {inode := h.inodes.next + 1, pos := 0, denyWrite := false}}

theorem openedFile_new (h : Handles) (unset : h.cwd = none) (data data' : Sector) (x : Nat) :
    NewFile h (h.openedFile data x data') h.files.next (h.inodes.next + 1) x data' 0 := by
  have dir : (h.openBoth data x data').dir h.dirs.next =
      {inode := h.inodes.next, pos := sizeofDirEntry, openCnt := 1} :=
    ObjectHeap.deref_of_cell _ _ _ (ObjectHeap.alloc_cell_next _ _)
  refine ⟨?_,h.inodes.fresh _ (Nat.le_succ _),?_,rfl,h.files.next_cell,?_,rfl,unset.symm,rfl⟩
  · funext r
    unfold Handles.openedFile Handles.closeDir Handles.closeInode
    rw [dir]
    change (((h.inodes.alloc _).alloc _).modify _ _ |>.free _).cell r = _
    rw [ObjectHeap.free_cell,ObjectHeap.modify_cell,Function.update_apply]
    by_cases root : r = h.inodes.next
    · rw [if_pos root,if_neg (by omega),root,h.inodes.next_cell]
    · rw [if_neg root,if_neg root,ObjectHeap.alloc_cell,ObjectHeap.alloc_cell,ObjectHeap.alloc_next,if_neg root]
  · unfold Handles.openedFile Handles.closeDir Handles.closeInode
    rw [dir]
    change List.erase ((h.inodes.next + 1) :: h.inodes.next :: h.openInodes) h.inodes.next = _
    rw [List.erase_cons_tail (by simp),List.erase_cons_head]
  · exact ((ObjectHeap.SameBut.alloc _ _).modify _).free h.dirs.next_cell

/-- `filesys_open` when the directory does not have the name. -/
theorem exec_filesysOpen_none {u v : Volume} (names : NamesEntry path) (opening : dirOpenRoot.exec s = (some dir,u))
    (lookup : (dirLookup dir (lastName path)).exec u = (none,v)) :
    (filesysOpen path).exec s = (none,((dirClose (some dir)).exec v).2) := by
  have found : (openInode dir (lastName path)).exec u = (none,((dirClose (some dir)).exec v).2) := by
    unfold openInode
    rw [if_pos names.some,Task.exec_bind,lookup,Task.exec_bind,Task.exec_pure]
  unfold filesysOpen
  rw [if_neg names.filled,Task.exec_bind,opening]
  dsimp only
  rw [Task.exec_bind,← lastName,found,Task.exec_pure]

/-- `filesys_open` when the directory has the name, of an inode that is not removed. -/
theorem exec_filesysOpen_some {u v w : Volume} (filled : strlen path ≠ 0) (named : strlen (lastName path) > 0)
    (opening : dirOpenRoot.exec s = (some dir,u))
    (lookup : (dirLookup dir (lastName path)).exec u = (some p,v)) (closing : (dirClose (some dir)).exec v = ((),w))
    (kept : (w.vars.handles.inode p).removed = false) :
    (filesysOpen path).exec s = (some w.vars.handles.files.next,withHandles w {w.vars.handles with
      files := w.vars.handles.files.alloc {inode := p, pos := 0, denyWrite := false}}) := by
  have found : (openInode dir (lastName path)).exec u = (some p,w) := by
    unfold openInode
    rw [if_pos named,Task.exec_bind,lookup,Task.exec_bind,closing,Task.exec_pure]
  unfold filesysOpen
  rw [if_neg filled,Task.exec_bind,opening]
  dsimp only
  rw [Task.exec_bind,← lastName,found]
  dsimp only
  unfold inodeIsRemoved
  simp only [Task.exec_bind,exec_getHandles,Task.exec_pure,kept,Bool.false_eq_true,if_false,fileOpen,exec_setHandles]
  rfl

/-- A file opened through the root directory. -/
theorem filesysOpen_new (layout : Layout reserved owner img s) (owns : owner rootDirSector)
    (image : img rootDirSector = s.device rootDirSector) (unset : s.vars.handles.cwd = none)
    (absent : s.vars.handles.Unopened rootDirSector) (names : NamesEntry path) :
    match findName (rootArray s) (lastName path) with
    | none => ∃ h, (filesysOpen path).exec s = (none,withHandles s h) ∧ s.vars.handles.Same h
    | some i => (entryAt (rootArray s) i).inodeSector ≠ rootDirSector →
        s.vars.handles.Unopened (entryAt (rootArray s) i).inodeSector →
        ∃ f p h, (filesysOpen path).exec s = (some f,withHandles s h) ∧ NewFile s.vars.handles h f p
          (entryAt (rootArray s) i).inodeSector (s.device (entryAt (rootArray s) i).inodeSector) 0 := by
  have opening := exec_dirOpenRoot_new s unset absent
  change _ = (_,withHandles s (s.vars.handles.openRoot (s.device rootDirSector))) at opening
  have cell : (s.vars.handles.openRoot (s.device rootDirSector)).inodes.cell s.vars.handles.inodes.next =
      some (readInode rootDirSector (s.device rootDirSector)) := ObjectHeap.alloc_cell_next _ _
  have lookup := exec_dirLookup (s := withHandles s (s.vars.handles.openRoot (s.device rootDirSector)))
    (layout.congr rfl rfl) owns (p := s.vars.handles.inodes.next)
    ((congrArg Inode.data (ObjectHeap.deref_of_cell _ _ _ cell)).trans image.symm)
    (dir_openRoot s.vars.handles (s.device rootDirSector)) names.dot names.dotDot
  have array : contents (img rootDirSector) s.device = rootArray s := by rw [image]; rfl
  have self (h : Handles) : ((h.openRoot (s.device rootDirSector)).setData h.inodes.next (s.device rootDirSector)) =
      h.openRoot (s.device rootDirSector) := by
    apply setData_same
    rw [show (h.openRoot (s.device rootDirSector)).inodes.cell h.inodes.next = _ from ObjectHeap.alloc_cell_next _ _]
    rfl
  rw [withHandles_device,array] at lookup
  cases found : findName (rootArray s) (lastName path) with
  | none =>
    rw [found] at lookup
    have closing := exec_closeRoot s.vars.handles (s.device rootDirSector) (s.device rootDirSector)
      (withHandles s (s.vars.handles.openRoot (s.device rootDirSector))) (.of_eq (self _).symm)
    refine ⟨_,(exec_filesysOpen_none names opening lookup).trans (by rw [closing]; rfl),?_⟩
    have same := openRoot_same s.vars.handles (s.device rootDirSector) (s.device rootDirSector) unset
    rwa [self] at same
  | some i =>
    rw [found] at lookup
    intro other closed
    dsimp only at lookup
    rw [exec_inodeOpen_new _ _ (unopened_openRoot closed other)] at lookup
    change _ = (some (s.vars.handles.inodes.next + 1),withHandles s (s.vars.handles.openBoth (s.device rootDirSector)
      (entryAt (rootArray s) i).inodeSector (s.device (entryAt (rootArray s) i).inodeSector))) at lookup
    have closing := exec_dirClose_openBoth (withHandles s (s.vars.handles.openBoth (s.device rootDirSector)
      (entryAt (rootArray s) i).inodeSector (s.device (entryAt (rootArray s) i).inodeSector))) s.vars.handles
      (s.device rootDirSector) (s.device (entryAt (rootArray s) i).inodeSector) (entryAt (rootArray s) i).inodeSector rfl
    have new := openedFile_new s.vars.handles unset (s.device rootDirSector)
      (s.device (entryAt (rootArray s) i).inodeSector) (entryAt (rootArray s) i).inodeSector
    refine ⟨_,_,_,(exec_filesysOpen_some names.filled names.some opening lookup closing ?_).trans rfl,new⟩
    have here : (s.vars.handles.openedFile (s.device rootDirSector) (entryAt (rootArray s) i).inodeSector
        (s.device (entryAt (rootArray s) i).inodeSector)).inodes.cell (s.vars.handles.inodes.next + 1) = _ :=
      (congrFun new.inodes _).trans (Function.update_self _ _ _)
    exact congrArg Inode.removed (ObjectHeap.deref_of_cell _ _ _ here)

/-- `file_read` at the position of a file. -/
theorem exec_fileRead_backed {d : Sector} (backed : Backed d s.device)
    (cell : s.vars.handles.files.cell f = some ⟨p,pos,false⟩) (held : (s.vars.handles.inode p).data = d)
    (low : 0 ≤ pos) (high : pos < 2147483648) (size : Int) :
    (fileRead f size).exec s = (arrayRead (contents d s.device) pos.toNat size.toNat,
        withHandles s (s.vars.handles.setPos f (pos + (arrayRead (contents d s.device) pos.toNat size.toNat).length))) ∧
      pos + (arrayRead (contents d s.device) pos.toNat size.toNat).length < 2147483648 := by
  have limit := backed.limit
  have file : s.vars.handles.file f = ⟨p,pos,false⟩ := ObjectHeap.deref_of_cell _ _ _ cell
  have reading : (inodeReadAt p size pos).exec s = (arrayRead (contents d s.device) pos.toNat size.toNat,s) := by
    rcases Int.lt_or_le size 0 with negative | natural
    · unfold inodeReadAt
      rw [Int.toNat_of_nonpos (by omega),Task.exec_bind,exec_getHandles]
      dsimp only [readLoop]
      rw [Task.exec_pure]
      rfl
    · have read := inodeReadAt_backed backed p held size.toNat pos.toNat
      rwa [Int.toNat_of_nonneg natural,Int.toNat_of_nonneg low] at read
  have bound : pos + (arrayRead (contents d s.device) pos.toNat size.toNat).length < 2147483648 := by
    rw [length_arrayRead,length_contents]
    omega
  refine ⟨?_,bound⟩
  unfold fileRead
  simp only [Task.exec_bind,exec_getHandles,file,reading,exec_modifyFile,Task.exec_pure]
  generalize arrayRead (contents d s.device) pos.toNat size.toNat = bytes at bound
  have modified : (s.vars.handles.files.modify f fun c => {c with pos := i32 (c.pos + bytes.length)}) =
      s.vars.handles.files.modify f fun c => {c with pos := pos + bytes.length} := by
    unfold ObjectHeap.modify
    simp only [ObjectHeap.mk.injEq,and_true]
    rw [cell,Option.map_some,Option.map_some,i32_of_bounds _ (by omega) bound]
  rw [modified]
  rfl

theorem exec_fileRead (layout : Layout reserved owner img s) (owns : owner x)
    (cell : s.vars.handles.files.cell f = some ⟨p,pos,false⟩) (held : (s.vars.handles.inode p).data = img x)
    (low : 0 ≤ pos) (high : pos < 2147483648) (size : Int) :
    (fileRead f size).exec s = (arrayRead (contents (img x) s.device) pos.toNat size.toNat,
        withHandles s (s.vars.handles.setPos f
          (pos + (arrayRead (contents (img x) s.device) pos.toNat size.toNat).length))) ∧
      pos + (arrayRead (contents (img x) s.device) pos.toNat size.toNat).length < 2147483648 :=
  exec_fileRead_backed (layout.backed owns) cell held low high size

theorem closeInode_cell (h : Handles) (q p : Nat) :
    (h.closeInode q).inodes.cell p = if p = q then none else h.inodes.cell p := by
  unfold Handles.closeInode
  rw [ObjectHeap.free_cell,ObjectHeap.modify_cell]
  split <;> rfl

theorem exec_fileClose (cell : s.vars.handles.files.cell f = some ⟨p,pos,false⟩) {c : Inode}
    (inode : s.vars.handles.inodes.cell p = some c) (last : c.openCnt = 1) (kept : c.removed = false) :
    (fileClose (some f)).exec s = ((),withHandles s {s.vars.handles.closeInode p with
      files := s.vars.handles.files.free f}) := by
  have file : s.vars.handles.file f = ⟨p,pos,false⟩ := ObjectHeap.deref_of_cell _ _ _ cell
  have allowed : (fileAllowWrite f).exec s = ((),s) := by
    unfold fileAllowWrite
    simp only [Task.exec_bind,exec_getHandles,file,Bool.false_eq_true,if_false,Task.exec_pure]
  unfold fileClose
  simp only [Task.exec_bind,allowed,exec_getHandles,file,exec_inodeClose_last s inode last kept,Task.exec_modify]
  rfl

section
variable {h₀ : Handles}

theorem NewFile.cell (new : NewFile h₀ h f p x data pos) : h.files.cell f = some ⟨p,pos,false⟩ := by
  rw [new.files,Function.update_self]

theorem NewFile.inodeCell (new : NewFile h₀ h f p x data pos) : h.inodes.cell p = some (readInode x data) := by
  rw [new.inodes,Function.update_self]

theorem NewFile.setPos (new : NewFile h₀ h f p x data pos) (next : Int) : NewFile h₀ (h.setPos f next) f p x data next := by
  refine ⟨new.inodes,new.inode,new.openInodes,?_,new.file,new.dirs,new.freeMapFile,new.cwd,new.fileTable⟩
  funext g
  refine (ObjectHeap.modify_cell _ _ _ _).trans ?_
  rw [new.cell,new.files,Function.update_apply,Function.update_apply]
  split <;> rfl

theorem NewFile.setData (new : NewFile h₀ h f p x data pos) (d : Sector) : NewFile h₀ (h.setData p d) f p x d pos := by
  refine ⟨?_,new.inode,new.openInodes,new.files,new.file,new.dirs,new.freeMapFile,new.cwd,new.fileTable⟩
  funext q
  refine (ObjectHeap.modify_cell _ _ _ _).trans ?_
  rw [new.inodeCell,new.inodes,Function.update_apply,Function.update_apply]
  split <;> rfl

/-- Closing the file takes it away again, and its inode. -/
theorem NewFile.close (new : NewFile h₀ h f p x data pos) (handles : s.vars.handles = h) :
    ∃ h', (fileClose (some f)).exec s = ((),withHandles s h') ∧ h₀.Same h' := by
  subst handles
  refine ⟨_,exec_fileClose new.cell new.inodeCell rfl rfl,?_,?_,?_,new.dirs,new.freeMapFile,new.cwd,new.fileTable⟩
  · funext q
    refine (closeInode_cell s.vars.handles p q).trans ?_
    split
    · rename_i here
      rw [here,new.inode]
    · rename_i other
      exact (congrFun new.inodes q).trans (Function.update_of_ne other _ _)
  · exact (congrArg (List.erase · p) new.openInodes).trans (List.erase_cons_head _ _)
  · funext g
    refine (ObjectHeap.free_cell _ _ _).trans ?_
    split
    · rename_i here
      rw [here,new.file]
    · rename_i other
      exact (congrFun new.files g).trans (Function.update_of_ne other _ _)

end

end
end MyShell.FS
